import E2EAnon.Net.Secrecy
import E2EAnon.Web.Current

/-!
# Going back to an older key

The relay brings envelopes that some tab has sent, as often and as late as it likes; it is free in
everything else. Steps are numbered, and so are the keys, by the step that drew them. `NoRollback`:
the key a session encrypts with only ever changes to one of a later step. Nothing in an envelope says
when it was sealed, so that is up to the order in which the relay brings them (`rollback_iff`).
-/

namespace E2EAnon.Net

open Web
open Lib (Machine)

abbrev TabStep := Machine.Transition Tabs (Nat × Web.Act)

/-- An envelope that is brought has been sent by some tab. -/
def Replays (t : Tabs) (l : Nat × Web.Act) : Prop :=
  (l.2.type = some .rekey ∨ l.2.type = some .keyDeliver) → ∀ d, l.2.payload = some d →
    ∃ j, ∃ m ∈ (t j).outbox, envelope m.2 = some d

/-! ## Numbered steps -/

/-- Step `n` drew the value. -/
def Born (l : List TabStep) (n : Nat) (key : Data) : Prop :=
  ∃ u, l[n]? = some u ∧ DrawnBetween (u.before u.label.1) (u.after u.label.1) key

/-- After step `p` the session of tab `i` on the socket `k` encrypts with `key`. -/
def Holds (l : List TabStep) (p i k : Nat) (key : Data) : Prop :=
  ∃ u, l[p]? = some u ∧ (u.after i).Current k key

/-- In step `n` a tab sent the envelope for the first time. -/
def Sealed (l : List TabStep) (n : Nat) (d : Data) : Prop :=
  ∃ u, l[n]? = some u ∧ ∃ m ∈ (u.after u.label.1).outbox, m ∉ (u.before u.label.1).outbox ∧
    envelope m.2 = some d

/-- In step `p` that session opens the envelope. -/
def Opens (l : List TabStep) (p i k : Nat) (d : Data) : Prop :=
  ∃ u, l[p]? = some u ∧ u.label.1 = i ∧ ∃ s key, (u.before i).session = some s ∧ s.sock = k ∧
    (u.before i).takes u.label.2 = some (d, key)

/-- In step `n` the tab draws a key for that session itself. -/
def Renews (l : List TabStep) (n i k : Nat) : Prop :=
  ∃ u, l[n]? = some u ∧ u.label.1 = i ∧ ∃ key, DrawnBetween (u.before i) (u.after i) key ∧
    (u.after i).Current k key

/-- Before step `p` the session has renewed its key in step `m` or opened an envelope sealed then. -/
def Source (l : List TabStep) (p i k m : Nat) : Prop :=
  (m < p ∧ Renews l m i k) ∨ ∃ p' < p, ∃ d, Opens l p' i k d ∧ Sealed l m d

/-- The key a session encrypts with only ever changes to one drawn in a later step. -/
def NoRollback (l : List TabStep) : Prop :=
  ∀ i k p p' key key' m n, p ≤ p' → Holds l p i k key → Holds l p' i k key' → Born l m key →
    Born l n key' → key' = key ∨ m < n

/-- No session opens an envelope that was sealed before one it has opened, or before it renewed its
key. -/
def Ordered (l : List TabStep) : Prop :=
  ∀ p i k d n m, Opens l p i k d → Sealed l n d → Source l p i k m → m ≤ n

variable {t t' : Tabs} {l l' : List TabStep} {i k m n p : Nat} {key key' d : Data} {u : TabStep}
  {ok : Tabs → Nat × Web.Act → Prop}

theorem get_of_prefix (h : l <+: l') (hn : l[n]? = some u) : l'[n]? = some u := by
  obtain ⟨r, rfl⟩ := h
  rw [List.getElem?_append_left (List.getElem?_eq_some_iff.mp hn).1, hn]

theorem Sealed.mono (h : Sealed l n d) (hl : l <+: l') : Sealed l' n d :=
  let ⟨u, hu, hm⟩ := h
  ⟨u, get_of_prefix hl hu, hm⟩

theorem Source.mono (h : Source l p i k m) {q : Nat} (hp : p ≤ q) : Source l q i k m :=
  h.imp (And.imp_left fun hlt => hlt.trans_le hp)
    fun ⟨p', hp', hd⟩ => ⟨p', hp'.trans_le hp, hd⟩

/-! ## The tabs -/

/-- What the tab `i` has drawn so far is not drawn again. -/
theorem born_unique (hl : tabs.Trace l t) (h : Born l m key) (h' : Born l n key) : m = n := by
  have hlt {m n : Nat} (h : Born l m key) (h' : Born l n key) : ¬ m < n := by
    intro hmn
    obtain ⟨u, hu, j, hj, hj', rfl⟩ := h
    obtain ⟨v, hv, j', hi, hi', he⟩ := h'
    obtain ⟨hur, -, -⟩ := hl.at hu
    obtain ⟨hvr, -, -⟩ := hl.at hv
    have hname := Lib.Term.name.inj he
    have hwho : (u.before u.label.1).who = (v.before v.label.1).who := congrArg Name.who hname
    rw [who_tab hur.reach, who_tab hvr.reach, Nat.add_right_cancel_iff] at hwho
    have hidx : j = j' := congrArg Name.idx hname
    subst hidx
    have hmem : u ∈ l.take n :=
      List.mem_of_getElem? (i := m) (by rw [List.getElem?_take_of_lt hmn, hu])
    have hper : j < (v.before u.label.1).draws := by
      refine Machine.Trace.persists (P := fun t => j < (t u.label.1).draws) ?_ hvr hmem hj'
      rintro t ⟨i, a⟩ t' - hP hstep
      obtain ⟨c', hc', rfl⟩ := step_tabs hstep
      by_cases hi : u.label.1 = i
      · subst hi
        rw [Function.update_self]
        exact hP.trans_le (step_draws hc').1
      · rwa [Function.update_of_ne hi]
    rw [hwho] at hper
    exact absurd hi (Nat.not_le_of_lt hper)
  exact Nat.le_antisymm (Nat.le_of_not_lt (hlt h' h)) (Nat.le_of_not_lt (hlt h h'))

/-- A step at a position of a run, for the tab that takes it. -/
theorem step_at (hl : tabs.Trace l t) (hu : l[n]? = some u) :
    (u.before u.label.1).step u.label.2 = some (u.after u.label.1) ∧
      KeysOk False (u.before u.label.1) ∧ Hellos (u.before u.label.1) ∧
      ∀ j, j ≠ u.label.1 → u.after j = u.before j := by
  obtain ⟨hb, -, hstep⟩ := hl.at hu
  obtain ⟨c', hc', he⟩ := step_tabs (i := u.label.1) (a := u.label.2) hstep
  refine ⟨?_, keysOk_tab hb.reach _, hellos_tab hb.reach _, fun j hj => ?_⟩
  · rw [he, Function.update_self]
    exact hc'
  · rw [he, Function.update_of_ne hj]

/-! ## Envelopes -/

/-- An envelope holds a key that its own step drew. -/
theorem sealed_makes (hl : tabs.Trace l t) (h : Sealed l n d) : ∃ u k key, l[n]? = some u ∧
    Makes (u.before u.label.1) (u.after u.label.1) key ∧ d = .enc k (keyToString key) := by
  obtain ⟨u, hu, m, hm, hnew, hd⟩ := h
  obtain ⟨hstep, hok, hh, -⟩ := step_at hl hu
  obtain hold | ⟨k, key, hkey, rfl⟩ := (step_traffic hok hh hstep).outbox m hm d hd
  · exact absurd hold hnew
  · exact ⟨u, k, key, hu, ⟨hkey, .inr ⟨m, hm, hnew, k, hd⟩⟩, rfl⟩

/-- What has been sent was sealed in some step. -/
theorem sealed_of_sent (hl : tabs.Trace l t) {m : Nat × ClientMsg Data} (hm : m ∈ (t i).outbox)
    (hd : envelope m.2 = some d) : ∃ n < l.length, Sealed l n d := by
  induction hl generalizing i with
  | nil => simp [tabs] at hm
  | @snoc l t t' b hl hstep ih =>
    by_cases hold : m ∈ (t i).outbox
    · obtain ⟨n, hn, hs⟩ := ih hold
      exact ⟨n, by simp; omega, hs.mono (List.prefix_append _ _)⟩
    · refine ⟨l.length, by simp, ⟨t, b, t'⟩, by simp, m, ?_⟩
      obtain ⟨c', hc', rfl⟩ := step_tabs (i := b.1) (a := b.2) hstep
      by_cases hi : i = b.1
      · subst hi
        exact ⟨hm, hold, hd⟩
      · rw [Function.update_of_ne hi] at hm
        exact absurd hm hold

/-- A parked envelope has been sent by some tab. -/
theorem sent_of_parked (hl : tabs.Trace l t) (hr : ∀ u ∈ l, Replays u.before u.label)
    (hp : (t i).Parked d) : ∃ j, ∃ m ∈ (t j).outbox, envelope m.2 = some d := by
  induction hl generalizing i with
  | nil =>
    obtain ⟨s, -, -, hs, -⟩ := hp
    simp [tabs] at hs
  | @snoc l t t' b hl hstep ih =>
    have ih' {i : Nat} (hp : (t i).Parked d) := ih (fun u hu => hr u (by simp [hu])) hp
    have hmono {j : Nat} {m : Nat × ClientMsg Data} (hm : m ∈ (t j).outbox) : m ∈ (t' j).outbox :=
      outbox_mono (i := b.1) (a := b.2) hstep j hm
    have hcarry (h : ∃ j, ∃ m ∈ (t j).outbox, envelope m.2 = some d) :
        ∃ j, ∃ m ∈ (t' j).outbox, envelope m.2 = some d := by
      obtain ⟨j, m, hm, hd⟩ := h
      exact ⟨j, m, hmono hm, hd⟩
    refine hcarry ?_
    obtain ⟨c', hc', rfl⟩ := step_tabs (i := b.1) (a := b.2) hstep
    by_cases hi : i = b.1
    · subst hi
      rw [Function.update_self] at hp
      have htr := step_traffic (keysOk_tab hl.reach b.1) (hellos_tab hl.reach b.1) hc'
      obtain hp | ⟨ht, hd⟩ := htr.parked d hp
      · exact ih' hp
      · exact hr ⟨t, b, Function.update t b.1 c'⟩ (by simp) (.inr ht) d hd
    · rw [Function.update_of_ne hi] at hp
      exact ih' hp

/-- An envelope that a tab opens was sealed in an earlier step; the key in it is the current one
from then on. -/
theorem opens_spec (hl : tabs.Trace l t) (hr : ∀ u ∈ l, Replays u.before u.label)
    (h : Opens l p i k d) : ∃ n < p, Sealed l n d ∧ ∃ key k', Holds l p i k key ∧
      d = .enc k' (keyToString key) := by
  obtain ⟨u, hu, rfl, s, key, hs, hk, htakes⟩ := h
  obtain ⟨hstep, hok, -, -⟩ := step_at hl hu
  obtain ⟨hb, -, -⟩ := hl.at hu
  obtain ⟨-, ⟨k', he⟩, hd⟩ := takes_spec htakes
  have hsent : ∃ j, ∃ m ∈ (u.before j).outbox, envelope m.2 = some d := by
    obtain hp | ⟨ht, hd⟩ := hd
    · exact sent_of_parked hb (fun v hv => hr v (List.mem_of_mem_take hv)) hp
    · exact hr u (List.mem_of_getElem? hu) ht d hd
  obtain ⟨j, m, hm, henv⟩ := hsent
  obtain ⟨n, hn, hsealed⟩ := sealed_of_sent hb hm henv
  refine ⟨n, by simp at hn; omega, hsealed.mono (List.take_prefix _ _), key, k', ?_, he⟩
  exact ⟨u, hu, hk ▸ takes_current hok hstep hs htakes⟩

theorem key_of_envelope {k k' : Data} (h : Lib.Term.enc k (keyToString key) = .enc k' (keyToString key')) :
    key = key' := by
  injection h with _ h
  injection h

/-- Step `n` made the key. -/
def Made (l : List TabStep) (n : Nat) (key : Data) : Prop :=
  ∃ u, l[n]? = some u ∧ Makes (u.before u.label.1) (u.after u.label.1) key

theorem Made.born (h : Made l n key) : Born l n key :=
  let ⟨u, hu, hm⟩ := h
  ⟨u, hu, hm.1⟩

/-- The step that sealed an envelope drew the key in it. -/
theorem made_of_sealed (hl : tabs.Trace l t) {k' : Data} (h : Sealed l n d)
    (he : d = .enc k' (keyToString key)) : Made l n key := by
  obtain ⟨u, k, key', hu, hmakes, hd⟩ := sealed_makes hl h
  exact ⟨u, hu, key_of_envelope (hd.symm.trans he) ▸ hmakes⟩

/-! ## The newest source -/

/-- A step makes one key only. -/
theorem made_unique (hl : tabs.Trace l t) (h : Made l n key) (h' : Made l n key') : key = key' := by
  obtain ⟨u, hu, hm⟩ := h
  obtain ⟨v, hv, hm'⟩ := h'
  obtain rfl := Option.some.inj (hu.symm.trans hv)
  exact makes_unique (step_at hl hu).1 hm hm'

theorem current_unique {c : Client} (h : c.Current k key) (h' : c.Current k key') : key = key' := by
  obtain ⟨s, x, hs, -, hx, rfl⟩ := h
  obtain ⟨s', x', hs', -, hx', rfl⟩ := h'
  obtain rfl := Option.some.inj (hs.symm.trans hs')
  rw [Option.some.inj (hx.symm.trans hx')]

/-- Every source is an earlier step. -/
theorem Source.lt (hl : tabs.Trace l t) (hr : ∀ u ∈ l, Replays u.before u.label)
    (h : Source l p i k m) : m < p := by
  obtain ⟨hlt, -⟩ | ⟨p', hp', d, ho, hd⟩ := h
  · exact hlt
  · obtain ⟨n, hn, hs, key, k', -, he⟩ := opens_spec hl hr ho
    rw [born_unique hl (made_of_sealed hl hd he).born (made_of_sealed hl hs he).born]
    exact hn.trans hp'

/-- What the step `p` adds to the sources. -/
def NewSource (l : List TabStep) (p i k m : Nat) : Prop :=
  (m = p ∧ Renews l p i k) ∨ ∃ d, Opens l p i k d ∧ Sealed l m d

theorem source_succ : Source l (p + 1) i k m ↔ Source l p i k m ∨ NewSource l p i k m := by
  unfold Source NewSource
  constructor
  · rintro (⟨hlt, hr⟩ | ⟨p', hp', hd⟩)
    · obtain hlt | rfl := Nat.lt_or_eq_of_le (Nat.le_of_lt_succ hlt)
      · exact .inl (.inl ⟨hlt, hr⟩)
      · exact .inr (.inl ⟨rfl, hr⟩)
    · obtain hlt | rfl := Nat.lt_or_eq_of_le (Nat.le_of_lt_succ hp')
      · exact .inl (.inr ⟨p', hlt, hd⟩)
      · exact .inr (.inr hd)
  · rintro ((⟨hlt, hr⟩ | ⟨p', hp', hd⟩) | ⟨rfl, hr⟩ | hd)
    · exact .inl ⟨hlt.trans (Nat.lt_succ_self _), hr⟩
    · exact .inr ⟨p', hp'.trans (Nat.lt_succ_self _), hd⟩
    · exact .inl ⟨Nat.lt_succ_self _, hr⟩
    · exact .inr ⟨p, Nat.lt_succ_self _, hd⟩

/-- A new source made the key that is current from then on. -/
theorem made_of_new (hl : tabs.Trace l t) (hr : ∀ u ∈ l, Replays u.before u.label)
    (hkey : Holds l p i k key) (h : NewSource l p i k m) : Made l m key := by
  obtain ⟨u, hu, hcur⟩ := hkey
  obtain ⟨rfl, v, hv, rfl, key', hdrawn, hcur'⟩ | ⟨d, ho, hd⟩ := h
  · obtain rfl := Option.some.inj (hu.symm.trans hv)
    obtain rfl := current_unique hcur hcur'
    exact ⟨u, hu, hdrawn, .inl ⟨k, hcur⟩⟩
  · obtain ⟨-, -, -, key', k', ⟨v, hv, hcur'⟩, he⟩ := opens_spec hl hr ho
    obtain rfl := Option.some.inj (hu.symm.trans hv)
    obtain rfl := current_unique hcur hcur'
    exact made_of_sealed hl hd he

/-- The state before a step is the one after the step before it. -/
theorem holds_before (hl : tabs.Trace l t) (hu : l[p]? = some u)
    (h : (u.before i).Current k key) : ∃ q, p = q + 1 ∧ Holds l q i k key := by
  obtain ⟨hb, -, -⟩ := hl.at hu
  cases p with
  | zero =>
    obtain ⟨s, -, hs, -⟩ := h
    rw [Machine.Trace.of_nil hb] at hs
    simp [tabs] at hs
  | succ q =>
    have hq : q < l.length := (Nat.lt_succ_self q).trans (List.getElem?_eq_some_iff.mp hu).1
    have hget : l[q]? = some l[q] := List.getElem?_eq_getElem hq
    have htake : l.take (q + 1) = l.take q ++ [l[q]] := by rw [List.take_add_one, hget]; rfl
    obtain ⟨-, -, he⟩ := Machine.Trace.last (htake ▸ hb)
    exact ⟨q, rfl, l[q], hget, he ▸ h⟩

/-- The key is current because of the step, or the step changes nothing. -/
theorem holds_cases (hl : tabs.Trace l t) (hr : ∀ u ∈ l, Replays u.before u.label)
    (h : Holds l p i k key) : (∃ m, NewSource l p i k m ∧ Made l m key) ∨
      (∀ m, ¬ NewSource l p i k m) ∧ ∃ q, p = q + 1 ∧ Holds l q i k key := by
  by_cases hnew : ∃ m, NewSource l p i k m
  · obtain ⟨m, hm⟩ := hnew
    exact .inl ⟨m, hm, made_of_new hl hr h hm⟩
  refine .inr ⟨fun m hm => hnew ⟨m, hm⟩, ?_⟩
  obtain ⟨u, hu, hcur⟩ := h
  obtain ⟨hstep, hok, -, hother⟩ := step_at hl hu
  by_cases hi : i = u.label.1
  · subst hi
    obtain hbefore | hdrawn | ⟨s, d, hs, hk, htakes⟩ := step_current hok hstep hcur
    · exact holds_before hl hu hbefore
    · exact absurd ⟨p, .inl ⟨rfl, u, hu, rfl, key, hdrawn, hcur⟩⟩ hnew
    · have ho : Opens l p u.label.1 k d := ⟨u, hu, rfl, s, key, hs, hk, htakes⟩
      obtain ⟨n, -, hd, -⟩ := opens_spec hl hr ho
      exact absurd ⟨n, .inr ⟨d, ho, hd⟩⟩ hnew
  · rw [hother i hi] at hcur
    exact holds_before hl hu hcur

/-- The current key has been made by a source. -/
theorem source_of_holds (hl : tabs.Trace l t) (hr : ∀ u ∈ l, Replays u.before u.label)
    (h : Holds l p i k key) : ∃ n, Made l n key ∧ Source l (p + 1) i k n := by
  induction p with
  | zero =>
    obtain ⟨m, hm, hmade⟩ | ⟨-, q, hq, -⟩ := holds_cases hl hr h
    · exact ⟨m, hmade, source_succ.mpr (.inr hm)⟩
    · cases hq
  | succ p ih =>
    obtain ⟨m, hm, hmade⟩ | ⟨-, q, hq, hheld⟩ := holds_cases hl hr h
    · exact ⟨m, hmade, source_succ.mpr (.inr hm)⟩
    · cases hq
      obtain ⟨n, hmade, hs⟩ := ih hheld
      exact ⟨n, hmade, source_succ.mpr (.inl hs)⟩

/-- If the envelopes come in order, the current key has been made by the newest source. -/
theorem newest (hl : tabs.Trace l t) (hr : ∀ u ∈ l, Replays u.before u.label) (hord : Ordered l)
    (h : Holds l p i k key) (hn : Made l n key) (hm : Source l (p + 1) i k m) : m ≤ n := by
  have hstep {p : Nat} (h : Holds l p i k key) (hm : Source l (p + 1) i k m)
      {m' : Nat} (hnew : NewSource l p i k m') (hmade : Made l m' key) : m ≤ n := by
    obtain rfl := born_unique hl hn.born hmade.born
    obtain hold | hm := source_succ.mp hm
    · obtain ⟨rfl, -⟩ | ⟨d, ho, hd⟩ := hnew
      · exact (hold.lt hl hr).le
      · exact hord p i k d n m ho hd hold
    · exact (born_unique hl (made_of_new hl hr h hm).born hn.born).le
  induction p with
  | zero =>
    obtain ⟨m', hnew, hmade⟩ | ⟨-, q, hq, -⟩ := holds_cases hl hr h
    · exact hstep h hm hnew hmade
    · cases hq
  | succ p ih =>
    obtain ⟨m', hnew, hmade⟩ | ⟨hno, q, hq, hheld⟩ := holds_cases hl hr h
    · exact hstep h hm hnew hmade
    · cases hq
      obtain hold | hm := source_succ.mp hm
      · exact ih hheld hold
      · exact absurd hm (hno m)

/-! ## The order of the envelopes decides -/

/-- With a relay that brings only envelopes that have been sent, every key a session encrypts with
has been drawn in some step so far, and none gives way to an older one exactly if the envelopes are
opened in the order in which they were sealed. -/
theorem rollback_iff (hl : tabs.Trace l t) (hr : ∀ u ∈ l, Replays u.before u.label) :
    (∀ p i k key, Holds l p i k key → ∃ n ≤ p, Born l n key) ∧ (NoRollback l ↔ Ordered l) := by
  refine ⟨fun p i k key h => ?_, fun hno p i k d n m ho hd hs => ?_,
    fun hord i k p p' key key' m n hp h h' hm hn => ?_⟩
  · obtain ⟨n, hmade, hs⟩ := source_of_holds hl hr h
    exact ⟨n, Nat.le_of_lt_succ (hs.lt hl hr), hmade.born⟩
  · obtain ⟨-, -, -, key, k', hkey, he⟩ := opens_spec hl hr ho
    have hn : Born l n key := (made_of_sealed hl hd he).born
    -- the key of the earlier source was the current one
    have hold : ∃ p' ≤ p, ∃ key', Holds l p' i k key' ∧ Born l m key' := by
      obtain ⟨hlt, u, hu, rfl, key', hdrawn, hcur⟩ | ⟨p', hp', d', ho', hd'⟩ := hs
      · exact ⟨m, hlt.le, key', ⟨u, hu, hcur⟩, ⟨u, hu, hdrawn⟩⟩
      · obtain ⟨-, -, -, key', k'', hkey', he'⟩ := opens_spec hl hr ho'
        exact ⟨p', hp'.le, key', hkey', (made_of_sealed hl hd' he').born⟩
    obtain ⟨p', hp', key', hkey', hm⟩ := hold
    obtain rfl | hlt := hno i k p' p key' key m n hp' hkey' hkey hm hn
    · exact (born_unique hl hm hn).le
    · exact hlt.le
  · obtain ⟨m', hmade, hs⟩ := source_of_holds hl hr h
    obtain ⟨n', hmade', -⟩ := source_of_holds hl hr h'
    obtain rfl := born_unique hl hm hmade.born
    obtain rfl := born_unique hl hn hmade'.born
    have hle := newest hl hr hord h' hmade' (hs.mono (Nat.succ_le_succ hp))
    obtain hlt | rfl := Nat.lt_or_eq_of_le hle
    · exact .inr hlt
    · exact .inl (made_unique hl hmade' hmade)

/-! ## The order of a run can be computed -/

/-- What `f` finds in step `n`. -/
def inStep {A : Type} (f : TabStep → List A) (l : List TabStep) (n : Nat) : List A := l[n]?.elim [] f

/-- The tab that opens an envelope, its socket, and the envelope. -/
def opened (u : TabStep) : List (Nat × Nat × Data) := Option.toList do
  let s ← (u.before u.label.1).session
  let x ← (u.before u.label.1).takes u.label.2
  some (u.label.1, s.sock, x.1)

def sealedIn (u : TabStep) : List Data :=
  ((u.after u.label.1).outbox.filter (· ∉ (u.before u.label.1).outbox)).filterMap (envelope ·.2)

/-- The tab that draws something. -/
def drawing (u : TabStep) : List Nat :=
  if (u.before u.label.1).draws < (u.after u.label.1).draws then [u.label.1] else []

/-- In step `m` the tab `i` draws something, or an envelope is sealed that is opened before `p`. -/
def earlier (l : List TabStep) (p i m : Nat) : Bool :=
  (m < p ∧ i ∈ inStep drawing l m) || (List.range p).any fun p' => (inStep opened l p').any fun y =>
    y.2.2 ∈ inStep sealedIn l m

/-- No step opens an envelope that was sealed before such a step. -/
def orderly (l : List TabStep) : Bool :=
  (List.range l.length).all fun p => (inStep opened l p).all fun x => (List.range l.length).all fun n =>
    x.2.2 ∉ inStep sealedIn l n || (List.range l.length).all fun m => !earlier l p x.1 m || m ≤ n

theorem mem_inStep {A : Type} {f : TabStep → List A} {x : A} (hu : l[n]? = some u) (hx : x ∈ f u) :
    n < l.length ∧ x ∈ inStep f l n :=
  ⟨(List.getElem?_eq_some_iff.mp hu).1, by rw [inStep, hu]; exact hx⟩

theorem opened_of_opens (h : Opens l p i k d) : p < l.length ∧ (i, k, d) ∈ inStep opened l p := by
  obtain ⟨u, hu, rfl, s, key, hs, rfl, htakes⟩ := h
  exact mem_inStep hu (by simp [opened, hs, htakes])

theorem sealedIn_of_sealed (h : Sealed l n d) : n < l.length ∧ d ∈ inStep sealedIn l n := by
  obtain ⟨u, hu, m, hm, hnew, hd⟩ := h
  exact mem_inStep hu (List.mem_filterMap.mpr ⟨m, List.mem_filter.mpr ⟨hm, decide_eq_true hnew⟩, hd⟩)

theorem drawing_of_renews (h : Renews l m i k) : m < l.length ∧ i ∈ inStep drawing l m := by
  obtain ⟨u, hu, rfl, key, ⟨j, hj, hj', -⟩, -⟩ := h
  exact mem_inStep hu (by simp [drawing, hj.trans_lt hj'])

theorem earlier_of_source (h : Source l p i k m) : m < l.length ∧ earlier l p i m = true := by
  simp only [earlier, Bool.or_eq_true, decide_eq_true_eq, List.any_eq_true, List.mem_range]
  obtain ⟨hlt, hr⟩ | ⟨p', hp', d', ho, hs⟩ := h
  · obtain ⟨hm, hdraw⟩ := drawing_of_renews hr
    exact ⟨hm, .inl ⟨hlt, hdraw⟩⟩
  · obtain ⟨hm, hd⟩ := sealedIn_of_sealed hs
    exact ⟨hm, .inr ⟨p', hp', _, (opened_of_opens ho).2, hd⟩⟩

theorem ordered_of_orderly (h : orderly l = true) : Ordered l := by
  simp only [orderly, List.all_eq_true, List.mem_range, Bool.or_eq_true, decide_eq_true_eq,
    Bool.not_eq_true'] at h
  intro p i k d n m ho hs hsource
  obtain ⟨hp, hx⟩ := opened_of_opens ho
  obtain ⟨hn, hd⟩ := sealedIn_of_sealed hs
  obtain ⟨hm, he⟩ := earlier_of_source hsource
  have hle := (h p hp _ hx n hn).resolve_left (not_not.mpr hd) m hm
  exact hle.resolve_left (by simp [he])

/-! ## Two keys -/

/-- Tab 1 is in the room; twice a third member has come and gone, and tab 0 has sent a new key each
time: its random values 5 and 6. The relay brings tab 1 those in `order`. -/
def sampleRekeys (order : List Nat) : List (Nat × Web.Act) :=
  let pairing : Data := .kdf .rekey (.agree (Name.mk 1 0) (Name.mk 2 0))
  let ann : MemberInfo := ⟨1, "ann", .owner⟩
  let bob : MemberInfo := ⟨2, "bob", .member⟩
  let guest : List (Nat × Web.Act) :=
    [(0, .message 0 { type := .presence, members := some [ann, bob, ⟨3, "cat", .member⟩] }),
      (0, .message 0 { type := .presence, members := some [ann, bob] })]
  let rekey (i : Nat) : Nat × Web.Act :=
    (1, .message 0 { type := .rekey, data := some (.enc pairing (keyToString (.name (Name.mk 1 i)))) })
  sampleJoin ++
    [(1, .message 0 { type := .welcome, room := some 9, memberId := some 2
                      members := some [ann, bob] })] ++
    guest ++ guest ++ order.map rekey

/-- An envelope that is brought has been sent by one of the first two tabs. -/
def replayed (t : Tabs) (l : Nat × Web.Act) : Bool :=
  (l.2.type ≠ some .rekey ∧ l.2.type ≠ some .keyDeliver) || l.2.payload.all fun d =>
    [0, 1].any fun j => (t j).outbox.any fun m => envelope m.2 = some d

theorem replays_of_replayed {l : Nat × Web.Act} (h : replayed t l = true) : Replays t l := by
  intro ht d hd
  simp only [replayed, hd, Option.all_some, Bool.or_eq_true, decide_eq_true_eq, List.any_eq_true] at h
  obtain ⟨h₁, h₂⟩ | ⟨j, -, m, hm, he⟩ := h
  · exact (ht.elim h₁ h₂).elim
  · exact ⟨j, m, hm, he⟩

theorem replays_of_run {as : List (Nat × Web.Act)} (h : (tabs.stepsFrom tabs.init as).isSome = true)
    (hr : (((tabs.stepsFrom tabs.init as).get h).1.all fun u => replayed u.before u.label) = true) :
    ∀ u ∈ ((tabs.stepsFrom tabs.init as).get h).1, Replays u.before u.label :=
  fun u hu => replays_of_replayed (List.all_eq_true.mp hr u hu)

theorem inOrder_some : (tabs.stepsFrom tabs.init (sampleRekeys [5, 6])).isSome = true := by
  decide +kernel

/-- The two in order. -/
theorem rollback_iff_sample :
    let l := ((tabs.stepsFrom tabs.init (sampleRekeys [5, 6])).get inOrder_some).1
    (∀ p i k key, Holds l p i k key → ∃ n ≤ p, Born l n key) ∧ NoRollback l := by
  intro l
  have h := rollback_iff (Machine.trace_get inOrder_some) (replays_of_run inOrder_some (by decide +kernel))
  exact ⟨h.1, h.2.mpr (ordered_of_orderly (by decide +kernel))⟩

/-- The first one once more. -/
theorem again_some : (tabs.stepsFrom tabs.init (sampleRekeys [5, 6, 5])).isSome = true := by
  decide +kernel

/-- Tab 1 goes from the older key to the newer one and back to the older one. -/
theorem key_rolls_back : ∃ l t, tabs.Trace l t ∧ (∀ u ∈ l, Replays u.before u.label) ∧
    ¬ NoRollback l ∧ ∃ p key key', key ≠ key' ∧ Holds l p 1 0 key ∧ Holds l (p + 1) 1 0 key' ∧
      Holds l (p + 2) 1 0 key := by
  have hheld : ∀ q ∈ [(24, 5), (25, 6), (26, 5)],
      (((tabs.stepsFrom tabs.init (sampleRekeys [5, 6, 5])).get again_some).1[q.1]?).any (fun u =>
        (u.after 1).session.any fun s => s.sock = 0 ∧
          s.keys.head?.map (u.after 1).read = some (.name (Name.mk 1 q.2))) = true := by
    decide +kernel
  have hborn : ∀ q ∈ [(21, 5), (23, 6)],
      (((tabs.stepsFrom tabs.init (sampleRekeys [5, 6, 5])).get again_some).1[q.1]?).any (fun u =>
        u.label.1 = 0 ∧ (u.before 0).draws ≤ q.2 ∧ q.2 < (u.after 0).draws) = true := by
    decide +kernel
  have hr := replays_of_run again_some (by decide +kernel)
  have hl := Machine.trace_get again_some
  generalize ((tabs.stepsFrom tabs.init (sampleRekeys [5, 6, 5])).get again_some).2 = t at hl
  generalize ((tabs.stepsFrom tabs.init (sampleRekeys [5, 6, 5])).get again_some).1 = l
    at hheld hborn hr hl
  have holds (q : Nat × Nat) (hq : q ∈ [(24, 5), (25, 6), (26, 5)]) :
      Holds l q.1 1 0 (.name (Name.mk 1 q.2)) := by
    obtain ⟨u, hu, hany⟩ := (Option.any_eq_true _ _).mp (hheld q hq)
    obtain ⟨s, hs, hs'⟩ := (Option.any_eq_true _ _).mp hany
    obtain ⟨hsock, hkey⟩ := of_decide_eq_true hs'
    obtain ⟨x, hx, hread⟩ := Option.map_eq_some_iff.mp hkey
    exact ⟨u, hu, s, x, hs, hsock, hx, hread⟩
  have born (q : Nat × Nat) (hq : q ∈ [(21, 5), (23, 6)]) : Born l q.1 (.name (Name.mk 1 q.2)) := by
    obtain ⟨u, hu, hany⟩ := (Option.any_eq_true _ _).mp (hborn q hq)
    obtain ⟨hi, hlt⟩ := of_decide_eq_true hany
    refine ⟨u, hu, ?_⟩
    rw [hi]
    exact ⟨q.2, hlt.1, hlt.2, by rw [who_tab (hl.at hu).1.reach]⟩
  refine ⟨l, t, hl, hr, fun h => ?_, 24, _, _, ?_, holds (24, 5) (by simp), holds (25, 6) (by simp),
    holds (26, 5) (by simp)⟩
  · obtain he | hlt := h 1 0 25 26 _ _ 23 21 (by decide) (holds (25, 6) (by simp))
      (holds (26, 5) (by simp)) (born (23, 6) (by simp)) (born (21, 5) (by simp))
    · exact absurd he (by decide)
    · exact absurd hlt (by decide)
  · decide

end E2EAnon.Net
