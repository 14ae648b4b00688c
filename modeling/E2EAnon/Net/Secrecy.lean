import E2EAnon.Net.Secrets
import E2EAnon.Web.Posts

/-!
# Secrecy against the relay

Any number of tabs, each with every event of `Web/Step.lean`, and a relay under nobody's control: it
brings a tab any frame it can build from the payloads the tabs have handed to their sockets, with
every other field as it likes, or brings none. Codes are typed only where they are secret; nothing
is said about the texts and the files.
-/

namespace E2EAnon.Net

open Web
open Relay (clientPayloads payloads)
open Lib (JsMap)

/-- Tab `i` is client `i + 1`. -/
abbrev Tabs := Nat → Client

def tabs : Lib.Machine Tabs (Nat × Web.Act) where
  init i := { who := i + 1 }
  step t l := ((t l.1).step l.2).map (Function.update t l.1)

namespace Tabs

/-- The payloads handed to the sockets. -/
def sent (t : Tabs) : Set Data := {d | ∃ i, ∃ m ∈ (t i).outbox, d ∈ clientPayloads m.2}

/-- The relay can build `d`; it has random values of its own. -/
def Derives (t : Tabs) (d : Data) : Prop :=
  Lib.Term.Derives (t.sent ∪ {d | ∃ n : Name, n.who = 0 ∧ d = .name n}) d

/-- The envelopes of the clients, and what they hold. -/
def sealings (t : Tabs) (k m : Data) : Prop := Shape k m ∧ .enc k m ∈ t.sent

end Tabs

/-- The relay brings what it can build, and a code that is typed is secret. -/
def Feasible (t : Tabs) (l : Nat × Web.Act) : Prop :=
  match l.2 with
  | .message _ msg => ∀ d ∈ payloads msg, t.Derives d
  | .join _ code _ _ => Secret code
  | _ => True

/-- What an upload seals after its key has been wiped, the relay could build already. -/
def Discreet (t : Tabs) (l : Nat × Web.Act) : Prop :=
  match l.2 with
  | .resume u => ∀ up ∈ JsMap.get u (t l.1).uploads, up.Seals (t l.1) → ¬ up.Intact (t l.1) →
      ∀ d ∈ up.pieces, t.Derives d
  | _ => True

variable {t t' : Tabs} {i : Nat} {a : Web.Act} {c' : Client} {ok : Tabs → Nat × Web.Act → Prop}

/-! ## One step -/

theorem step_tabs (h : tabs.step t (i, a) = some t') :
    ∃ c', (t i).step a = some c' ∧ t' = Function.update t i c' := by
  obtain ⟨c', hc', rfl⟩ := Option.map_eq_some_iff.mp h
  exact ⟨c', hc', rfl⟩

/-- A tab's invariant, which its own events keep. -/
theorem invariant_of_reach {I : Client → Prop} (h0 : ∀ i, I { who := i + 1 })
    (hI : ∀ c a c', I c → c.step a = some c' → I c') (h : tabs.Reach ok t) (i : Nat) : I (t i) := by
  refine h.invariant (I := fun t => ∀ i, I (t i)) h0 ?_ i
  rintro t ⟨j, a⟩ t' - ih - hstep i
  obtain ⟨c', hc', rfl⟩ := step_tabs hstep
  by_cases hi : i = j
  · subst hi
    rw [Function.update_self]
    exact hI _ a _ (ih i) hc'
  · rw [Function.update_of_ne hi]
    exact ih i

theorem keysOk_tab (h : tabs.Reach ok t) (i : Nat) : KeysOk False (t i) :=
  invariant_of_reach (I := KeysOk False) (fun i => keysOk_init (i + 1))
    (fun _ _ _ hc hstep => hc.step hstep False.elim) h i

theorem who_tab (h : tabs.Reach ok t) (i : Nat) : (t i).who = i + 1 := by
  refine h.invariant (I := fun t => ∀ i, (t i).who = i + 1) (fun _ => rfl) ?_ i
  rintro t ⟨j, a⟩ t' - ih - hstep i
  obtain ⟨c', hc', rfl⟩ := step_tabs hstep
  by_cases hi : i = j
  · subst hi
    rw [Function.update_self, (step_draws hc').2, ih i]
  · rw [Function.update_of_ne hi, ih i]

theorem hellos_tab (h : tabs.Reach ok t) (i : Nat) : Hellos (t i) :=
  invariant_of_reach (fun i => Hellos.init (i + 1)) (fun _ _ _ hc hstep => hc.step hstep) h i

theorem outbox_mono (h : tabs.step t (i, a) = some t') (j : Nat) :
    (t j).outbox ⊆ (t' j).outbox := by
  obtain ⟨c', hc', rfl⟩ := step_tabs h
  by_cases hj : j = i
  · subst hj
    simpa using (step_outbox hc').subset
  · simp [hj]

theorem sent_mono (h : tabs.step t (i, a) = some t') : t.sent ⊆ t'.sent := by
  rintro d ⟨j, m, hm, hd⟩
  exact ⟨j, m, outbox_mono h j hm, hd⟩

/-! ## Runs -/

/-- Fit to be seen by the relay. -/
abbrev Tabs.Safe (t : Tabs) (d : Data) : Prop :=
  Lib.Term.Safe secrets (fun _ => False) t.sealings d

theorem safe_channel (t : Tabs) : Channel t.Safe where
  shape _ _ h hk := (Lib.Term.Safe.authentic h hk id).1
  tag _ _ := trivial
  pake _ _ h := ⟨trivial, h⟩

theorem safe_mono (h : tabs.step t (i, a) = some t') {d : Data} (hd : t.Safe d) : t'.Safe d :=
  Lib.Term.Safe.mono (fun _ _ hkm => ⟨hkm.1, sent_mono h hkm.2⟩) hd

/-- What the tabs have sent is safe if they keep their secrets. -/
theorem safe_of_sent (h : ∀ i, Kept t.Safe (t i)) {d : Data} (hd : d ∈ t.sent) : t.Safe d := by
  obtain ⟨i, m, hm, hdm⟩ := hd
  obtain hsafe | ⟨k, x, rfl, hk, hshape⟩ := ((h i).outbox m hm).2 d hdm
  · exact hsafe
  · exact .inr ⟨hk, hshape, i, m, hm, hdm⟩

theorem safe_of_built (h : ∀ i, Kept t.Safe (t i)) {d : Data} (hd : t.Derives d) : t.Safe d := by
  refine Lib.Term.safe_of_derives (fun x hx => ?_) hd
  obtain hx | ⟨n, hn, rfl⟩ := hx
  · exact safe_of_sent h hx
  · exact fun hsec => hsec hn

theorem kept_of_reach (h : tabs.Reach (fun t l => Feasible t l ∧ Discreet t l) t) (i : Nat) :
    Kept t.Safe (t i) := by
  refine h.invariant (I := fun t => ∀ i, Kept t.Safe (t i)) (fun i => kept_init i) ?_ i
  rintro t ⟨j, a⟩ t' hr ih ⟨hfeas, hdisc⟩ hstep i
  refine Kept.mono (fun _ => safe_mono hstep) ?_
  obtain ⟨c', hc', rfl⟩ := step_tabs hstep
  by_cases hi : i = j
  · subst hi
    rw [Function.update_self]
    refine (ih i).step (safe_channel t) (keysOk_tab hr i) hc' ?_ ?_ ?_
    · intro d hd
      cases a <;> simp only [Web.Act.payload, reduceCtorEq] at hd
      exact safe_of_built ih (hfeas d (by simp [payloads, hd]))
    · rintro token code nick session rfl
      exact hfeas
    · rintro u up rfl hu hseals hin d hd
      exact Lib.Term.Safe.under trivial (safe_of_built ih (hdisc up hu hseals hin d hd))
  · rw [Function.update_of_ne hi]
    exact ih i

/-- The relay never comes to know a random value of a client (a room key, a private key, a code), a
key a tab holds, the `Ke` of a secret code, or a secret text of the chat. -/
theorem secrets_kept (h : tabs.Reach (fun t l => Feasible t l ∧ Discreet t l) t) :
    (∀ n : Name, n.who ≠ 0 → ¬ t.Derives (.name n)) ∧
      (∀ i s x, (t i).session = some s → x ∈ s.buffers → ¬ t.Derives ((t i).read x)) ∧
      (∀ code hsId pA pB, Secret code → ¬ t.Derives (keOf code hsId pA pB)) ∧
      ∀ i sock key text, (sock, .msg (encryptMessage key text)) ∈ (t i).outbox → Secret text →
        ¬ t.Derives text := by
  have hkept := kept_of_reach h
  have hno {d : Data} (hd : Secret d) : ¬ t.Derives d := fun hder =>
    hd.not_safe (safe_of_built hkept hder)
  refine ⟨fun n hn => hno hn, fun i s x hs hx => ?_, fun code hsId pA pB hcode => ?_,
    fun i sock key text _ htext => hno htext⟩
  · exact hno ((hkept i).buffer (keysOk_tab h i) hs hx).secret
  · exact hno (keOf_material hcode hsId pA pB).secret

/-! ## A relay that only passes frames on -/

/-- The payload has been sent by one of the first two tabs. -/
def carried (t : Tabs) (d : Data) : Prop :=
  ∃ i ∈ [0, 1], ∃ m ∈ (t i).outbox, d ∈ clientPayloads m.2

instance (t : Tabs) (d : Data) : Decidable (carried t d) :=
  inferInstanceAs (Decidable (∃ i ∈ [0, 1], ∃ m ∈ (t i).outbox, d ∈ clientPayloads m.2))

/-- The relay brings what it has carried, and a code that is typed is secret. -/
def Forwards (t : Tabs) (l : Nat × Web.Act) : Prop :=
  match l.2 with
  | .message _ msg => ∀ d ∈ payloads msg, carried t d
  | .join _ code _ _ => Secret code
  | _ => True

instance forwardsDecidable (t : Tabs) (l : Nat × Web.Act) : Decidable (Forwards t l) := by
  unfold Forwards
  split <;> infer_instance

theorem feasible_of_forwards {l : Nat × Web.Act} (h : Forwards t l) : Feasible t l := by
  unfold Forwards at h
  unfold Feasible
  split at h
  · intro d hd
    obtain ⟨i, -, m, hm, hdm⟩ := h d hd
    exact .known (.inl ⟨i, m, hm, hdm⟩)
  · exact h
  · trivial

/-- Tab 0 opens a room and invites tab 1, which is handed the key 4 of client 1; then it writes. -/
def sampleJoin : List (Nat × Web.Act) :=
  let code : Data := .name (Name.mk 1 2)
  let pA := (Web.start .A code 300 (.name (Name.mk 1 3))).message
  let pB := (Web.start .B code 300 (.name (Name.mk 2 1))).message
  let ke := keOf code 300 pA pB
  let pairing : Data := .kdf .rekey (.agree (Name.mk 1 0) (Name.mk 2 0))
  let msg (i : Nat) (type : ServerType) (d : Data) : Nat × Web.Act :=
    (i, .message 0 { type, handshake := some 300, data := some d })
  opening.map (0, ·) ++
    [(0, .invite), (0, .message 0 { type := .inviteCreated, token := some 200 }),
      (1, .join 200 code "bob" ""), (1, .connected 0), (1, .opened 0),
      (1, .message 0 { type := .redeemOk, handshake := some 300, memberId := some 2 }),
      (0, .message 0 { type := .inviteRedeemed, handshake := some 300, token := some 200,
                       memberId := some 2 }),
      msg 0 .pake (pakeFrame .pakeM pB), msg 1 .pake (pakeFrame .pakeM pA),
      msg 0 .pake (pakeFrame .pakeC (.tag (.confirm .B) ke)),
      msg 1 .pake (pakeFrame .pakeC (.tag (.confirm .A) ke)),
      msg 1 .memberKey (sealUnderKe ke (.pub (Name.mk 1 0))),
      msg 0 .memberKey (sealUnderKe ke (.pub (Name.mk 2 0))),
      msg 1 .keyDeliver (encryptMessage pairing (keyToString (.name (Name.mk 1 4)))),
      (0, .submit (some (.name (Name.mk 1 99))) none)]

theorem discreet_of_sheltered {l : Nat × Web.Act} (h : Sheltered (t l.1) l.2) : Discreet t l := by
  obtain ⟨i, a⟩ := l
  cases a with
  | resume u => exact fun up hu hseals hin => absurd (h up hu hseals) hin
  | _ => trivial

theorem secrets_kept_sample :
    ¬ Tabs.Derives ((tabs.runFrom (fun t l => Forwards t l ∧ Sheltered (t l.1) l.2) tabs.init
      sampleJoin).get (by decide +kernel)) (.name (Name.mk 1 4)) :=
  (secrets_kept ((Lib.Machine.reach_get (by decide +kernel)).mono fun _ _ h =>
    ⟨feasible_of_forwards h.1, discreet_of_sheltered h.2⟩)).1 _ (by decide)

/-- A text of the chat is in a file as well: five rotations later its chunk goes out under zeros. -/
def leakyUpload : List (Nat × Web.Act) :=
  let text : Data := .name (Name.mk 1 99)
  let file : File := { name := .const (.text 0), type := .const (.text 1), size := 2
                       slices := [.const (.text 2), text] }
  let begin : List Web.Act := [.submit (some text) (some ("f", file)), .resume 0]
  let acts := opening ++ begin ++ visit ++ visit ++ visit ++ visit ++ visit ++ [Web.Act.resume 0]
  acts.map (0, ·)

/-- The relay comes to know a secret text of the chat. -/
theorem text_under_zeros :
    ∃ t, tabs.Reach Feasible t ∧ ∃ i sock key text,
      (sock, .msg (encryptMessage key text)) ∈ (t i).outbox ∧ Secret text ∧ t.Derives text := by
  have h : ∃ t, tabs.runFrom Forwards tabs.init leakyUpload = some t ∧
      (0, .msg (encryptMessage (.name (Name.mk 1 1)) (.name (Name.mk 1 99)))) ∈ (t 0).outbox ∧
      (0, .fileChunk "f" 1 (sealBytes zeros (.name (Name.mk 1 99)))) ∈ (t 0).outbox := by
    refine ⟨_, (Option.some_get (by decide +kernel)).symm, ?_⟩
    decide +kernel
  obtain ⟨t, hrun, hmsg, hchunk⟩ := h
  have hreach := (Lib.Machine.reach_of_runFrom .init hrun).mono fun _ _ => feasible_of_forwards
  have hsent : sealBytes zeros (.name (Name.mk 1 99)) ∈ t.sent :=
    ⟨0, _, hchunk, List.mem_singleton.mpr rfl⟩
  exact ⟨t, hreach, 0, 0, _, _, hmsg, by decide, .dec (.known (.inl hsent)) (.const Const.zeros)⟩

end E2EAnon.Net
