import E2EAnon.Relay.Caps

/-!
# Accepting a chunk (`server.go:338-355`, `hub.go:46-51`)

`handleFile` adds a chunk to the counter, compares the sum, and takes a refused chunk off again in a
section of its own. `carried` is what an atomic version would compare: the bytes of all chunks
accepted in the run and not released. The counter is that and the refused chunks still on it
(`counter_of_trace`), so a decision can differ from the atomic one only towards a refusal, and only
if the refused chunks tip the balance (`tipped`). `busy_while_refusing` is a run in which they do.
-/

namespace E2EAnon.Relay

open Lib

variable {D : Type} {cfg : Config}

abbrev Ran (D : Type) := Machine.Transition (State D) (Act D)

/-- A chunk refused and not yet taken off the counter. -/
def onHold : Pc D → Int
  | .member _ (.rollback size :: _) => size.toInt
  | _ => 0

def refused (s : State D) : Int := ∑ c ∈ s.started, onHold (s.conns c).pc

variable {s s' : State D} {a : Act D} {c : ClientId} {l : List (Ran D)}

theorem onHold_settled {pc : Pc D} (h : pc.settled = true) : onHold pc = 0 := by
  unfold Pc.settled at h
  unfold onHold
  split at h <;> simp_all

theorem refused_congr (hpc : ∀ d ∈ s.started, onHold (s'.conns d).pc = onHold (s.conns d).pc)
    (hstarted : s'.started = s.started) : refused s' = refused s := by
  unfold refused
  rw [hstarted]
  exact Finset.sum_congr rfl hpc

theorem readFrame_pc {m : ClientMsg D} {pc pc' : Pc D} (h : readFrame c m pc = some pc') :
    (∃ r h, pc = .hsLoop r h) ∨ ∃ r, pc = .member r [] := by
  unfold readFrame at h
  split at h
  · exact .inl ⟨_, _, rfl⟩
  · exact .inr ⟨_, rfl⟩
  · cases h

theorem readFails_pc {pc pc' : Pc D} (h : readFails pc = some pc') :
    (∃ r h, pc = .hsLoop r h) ∨ ∃ r, pc = .member r [] := by
  unfold readFails at h
  split at h
  · exact .inl ⟨_, _, rfl⟩
  · exact .inr ⟨_, rfl⟩
  · cases h

/-- The states of a run, the last one included. -/
def states (l : List (Ran D)) (s : State D) : List (State D) := l.map (·.before) ++ [s]

theorem states_getElem {n : Nat} {t : Ran D} (ht : l[n]? = some t) : (states l s)[n]? = some t.before := by
  have hn : n < (l.map (·.before)).length := by simpa using (List.getElem?_eq_some_iff.mp ht).1
  rw [states, List.getElem?_append_left hn, List.getElem?_map, ht]
  rfl

section
variable [Payload D]

/-! ## The atomic decision -/

/-- What a step of a goroutine adds to the bytes accepted and not released: it accepts a chunk, or
releases a transfer (`finishFile`, the deferred release). -/
def change (ft : AList (fun _ : String => Int64)) : Pc D → Pc D → Int
  | .member _ (.addInflight _ _ _ d :: _), .member _ (.accept _ _ _ _ :: _) => (chunkSize d).toInt
  | .member _ (.release t :: _), .member _ (.forget _ :: _) => -(count ft t).toInt
  | .deferBytes (b :: _), _ => -b.toInt
  | _, _ => 0

def Ran.change (t : Ran D) : Int :=
  match t.label with
  | .run c _ _ => Relay.change (t.before.conns c).fileTransfers (t.before.conns c).pc (t.after.conns c).pc
  | _ => 0

/-- The bytes of the chunks accepted and not released. -/
def carried (l : List (Ran D)) : Int := (l.map Ran.change).sum

/-- A decision about a chunk: whose it is, its size, and whether it is accepted. -/
def Ran.decision (t : Ran D) : Option (ClientId × Nat × Bool) :=
  match t.label with
  | .run c _ _ =>
    match (t.before.conns c).pc, (t.after.conns c).pc with
    | .member _ (.addInflight _ _ _ d :: _), .member _ (.accept _ _ _ _ :: _) =>
      some (c, Payload.len d, true)
    | .member _ (.addInflight _ _ _ d :: _), _ => some (c, Payload.len d, false)
    | _, _ => none
  | _ => none

/-- From moment `n` of the run to moment `m` `c` is in one call of `handleFile`. -/
def During (c : ClientId) (l : List (Ran D)) (s : State D) (n m : Nat) : Prop :=
  m ≤ l.length ∧ ∀ j x, min n m ≤ j → j ≤ max n m → (states l s)[j]? = some x →
    (x.conns c).pc.midFrame = true

/-- Every decision is that of one atomic comparison at some moment of its call. -/
def Linearizable (cfg : Config) (l : List (Ran D)) (s : State D) : Prop :=
  ∀ n t c, ∀ (size : Nat) (ok : Bool), l[n]? = some t → t.decision = some (c, size, ok) →
    ∃ m, During c l s n m ∧ ok = decide (carried (l.take m) + size ≤ cfg.maxInflightBytes.toInt)

/-- The chunk about to be added fits, but not with the refused ones still on the counter. -/
def tipped (cfg : Config) (s : State D) : Act D → Bool
  | .run c _ _ =>
    match (s.conns c).pc with
    | .member _ (.addInflight _ _ _ d :: _) =>
      s.inflight.toInt - refused s + Payload.len d ≤ cfg.maxInflightBytes.toInt &&
        cfg.maxInflightBytes.toInt < s.inflight.toInt + Payload.len d
    | _ => false
  | _ => false

/-! ## The counter -/

/-- The configuration without caps. -/
def Config.uncapped (cfg : Config) : Config :=
  { cfg with maxFileBytes := Int64.maxValue, maxInflightBytes := Int64.maxValue }

theorem Books.uncapped {pc pc' : Pc D} {ft ft' : AList (fun _ : String => Int64)} {n n' : Int64}
    (h : Books cfg pc ft n pc' ft' n') : Books cfg.uncapped pc ft n pc' ft' n' := by
  have hmax (x : Int64) : ¬ x > Int64.maxValue := Int64.not_lt.mpr (Int64.le_maxValue x)
  cases h with
  | check hcur _ => exact .check hcur (hmax _)
  | passed _ => exact .passed (hmax _)
  | quiet h h' => exact .quiet h h'
  | start => exact .start
  | reset h => exact .reset h
  | refuse => exact .refuse
  | accept h => exact .accept h
  | rollback h => exact .rollback h
  | release h => exact .release h
  | forget h => exact .forget h
  | take => exact .take
  | give => exact .give
  | exit => exact .exit

/-- Whatever the caps, no counter leaves its range. -/
theorem solvent_of_reach (hr : (relay (D := D) cfg).Reach InRange s) : Solvent cfg.uncapped s := by
  have hmax : (0 : Int64) ≤ Int64.maxValue := by decide
  refine hr.invariant (.init hmax) fun s a s' hr' h hok hstep => ?_
  obtain ⟨c, hc⟩ | hf | ⟨c, hpc, hm, -⟩ := step_moves (sound_of_reach hr') hstep
  · exact h.connect hc
  · exact h.frame hf
  · exact h.moves hmax (h.started c hpc) (hok c (h.started c hpc))
      ⟨hm.others, hm.started, hm.drawn, hm.books.uncapped, hm.sock⟩

/-- The counter moves by what the step changes and by what it puts on hold or takes off. -/
theorem Books.change {pc pc' : Pc D} {ft ft' : AList (fun _ : String => Int64)} {n n' : Int64}
    (hb : Books cfg pc ft n pc' ft' n') (h : Capped cfg.uncapped ft pc)
    (hfit : fits ft n pc = true) (hn : due ft pc ≤ n.toInt) :
    n'.toInt - onHold pc' = n.toInt - onHold pc + Relay.change ft pc pc' := by
  have hdue := due_nonneg h
  cases hb with
  | @quiet pc pc' ft n hp hp' =>
    rw [onHold_settled hp, onHold_settled hp']
    unfold Relay.change
    split <;> simp_all [Pc.settled]
  | start | check | take | exit => simp [onHold, Relay.change]
  | @reset r t kid d k pc' ft n hp' =>
    rw [onHold_settled hp']
    simp [onHold, Relay.change]
  | @accept r t i d cur k pc' ft n hp' =>
    rw [onHold_settled hp']
    simp [onHold, Relay.change]
  | @forget r t k pc' ft n hp' =>
    rw [onHold_settled hp']
    simp [onHold, Relay.change]
  | @passed r t i d cur k ft n hle =>
    obtain ⟨-, hadd⟩ := chunkSize_fits (d := d) (hdue.trans hn) (by simpa [fits] using hfit)
    simp only [onHold, Relay.change]
    omega
  | @refuse r t i d cur k k' ft n =>
    obtain ⟨-, hadd⟩ := chunkSize_fits (d := d) (hdue.trans hn) (by simpa [fits] using hfit)
    simp only [onHold, Relay.change]
    omega
  | @rollback r size k pc' ft n hp' =>
    have hsize : 0 ≤ size.toInt := h.checked
    have hft : 0 ≤ unreleased ft (.closeOut : Pc D) := unreleased_nonneg ⟨h.entry, trivial⟩
    simp only [due, unreleased] at hn hft
    have hsub := toInt_add_neg_of_le (n := n) hsize (by omega)
    rw [onHold_settled hp']
    simp only [onHold, Relay.change]
    omega
  | @release r t b k ft n hlk =>
    have hb := (h.entry t b hlk).1
    have hft : 0 ≤ unreleased ft (.member r (.forget t :: k)) :=
      unreleased_nonneg ⟨h.entry, trivial⟩
    have hsum := bytes_erase t ft
    rw [hlk] at hsum
    simp only [Option.elim_some] at hsum
    simp only [due, taken, unreleased] at hn hft
    have hsub := toInt_add_neg_of_le (n := n) hb (by omega)
    simp only [onHold, Relay.change, count, hlk, Option.getD_some]
    omega
  | @give b rest ft n =>
    have hpos : 0 ≤ b.toInt := h.checked b (by simp)
    have hrest : 0 ≤ unreleased ft (.deferBytes rest : Pc D) :=
      unreleased_nonneg ⟨h.entry, fun x hx => h.checked x (List.mem_cons_of_mem b hx)⟩
    simp only [due, taken, unreleased, List.map_cons, List.sum_cons] at hn hrest
    have hsub := toInt_add_neg_of_le (n := n) hpos (by omega)
    simp only [onHold, Relay.change]
    omega

theorem Moves.counter (hm : Moves cfg c s s') (h : Solvent cfg.uncapped s) (hc : c ∈ s.started)
    (hfit : fits (s.conns c).fileTransfers s.inflight (s.conns c).pc = true) :
    s'.inflight.toInt - refused s' = s.inflight.toInt - refused s +
      Relay.change (s.conns c).fileTransfers (s.conns c).pc (s'.conns c).pc := by
  have hle : due (s.conns c).fileTransfers (s.conns c).pc ≤ s.inflight.toInt :=
    (Finset.single_le_sum (fun d _ => due_nonneg (h.capped d)) hc).trans h.counted
  have hchange := hm.books.change (h.capped c) hfit hle
  have hrest : ∑ d ∈ s.started.erase c, onHold (s'.conns d).pc =
      ∑ d ∈ s.started.erase c, onHold (s.conns d).pc :=
    Finset.sum_congr rfl fun d hd => by rw [(own_eq (hm.others d (Finset.ne_of_mem_erase hd))).1]
  unfold refused
  rw [hm.started, ← Finset.add_sum_erase _ _ hc, ← Finset.add_sum_erase _ _ hc, hrest]
  omega

/-- A read brings nothing onto the counter. -/
theorem change_read {pc pc' : Pc D} (ft : AList (fun _ : String => Int64))
    (h : (∃ r h, pc = .hsLoop r h) ∨ ∃ r, pc = .member r []) : Relay.change ft pc pc' = 0 := by
  obtain ⟨r, h, rfl⟩ | ⟨r, rfl⟩ := h <;> rfl

theorem counter_step (hs : Sound cfg s) (h : Solvent cfg.uncapped s) (hok : InRange s a)
    (hstep : step cfg s a = some s') :
    s'.inflight.toInt - refused s' = s.inflight.toInt - refused s + Ran.change ⟨s, a, s'⟩ := by
  have hframe (hf : Frame s s') : s'.inflight.toInt - refused s' = s.inflight.toInt - refused s := by
    rw [hf.inflight, refused_congr (fun d _ => by rw [(own_eq (congrFun hf.own d)).1]) hf.started]
  cases a with
  | run c draw allow =>
    have hpc : (s.conns c).pc ≠ .absent := fun hpc => by simp [step, hpc, runPc] at hstep
    have hc := h.started c hpc
    exact (runPc_moves (hs.tidy.1 c) hstep).counter h hc (hok c hc)
  | frame c m =>
    simp only [step] at hstep
    split at hstep
    · cases hstep
    · obtain ⟨pc', hread, rfl⟩ := Option.map_eq_some_iff.mp hstep
      have hpc : (s.conns c).pc ≠ .absent := fun hpc => by simp [hpc, readFrame] at hread
      have hc := h.started c hpc
      have hmoves : Moves cfg c s (s.goto c pc') := readFrame_moves hread
      have hmove := hmoves.counter h hc (hok c hc)
      rwa [change_read _ (readFrame_pc hread)] at hmove
  | readErr c =>
    obtain ⟨pc', hread, rfl⟩ := Option.map_eq_some_iff.mp hstep
    have hpc : (s.conns c).pc ≠ .absent := fun hpc => by simp [hpc, readFails] at hread
    have hc := h.started c hpc
    have hmoves : Moves cfg c s (s.setConn c fun k => { k with pc := pc', sockClosed := true }) :=
      readFails_moves hread
    have hmove := hmoves.counter h hc (hok c hc)
    rwa [change_read _ (readFails_pc hread)] at hmove
  | connect c hello =>
    have hcon := connect_connects hstep
    have hns : c ∉ s.started := fun hm => hcon.fresh (h.drawn c hm)
    have hnew : onHold (s'.conns c).pc = 0 := onHold_settled hcon.settled
    have hsum : refused s' = refused s := by
      unfold refused
      rw [hcon.started, Finset.sum_insert hns, hnew, zero_add]
      refine Finset.sum_congr rfl fun d hd => ?_
      rw [(own_eq (hcon.others d (ne_of_mem_of_not_mem hd hns))).1]
    rw [hcon.inflight, hsum]
    exact (add_zero _).symm
  | pump c =>
    simp only [step] at hstep
    split at hstep
    · cases hstep
    · split at hstep
      · cases hstep
      · cases hstep
        refine (hframe (State.Quiet.frame ?_)).trans (add_zero _).symm
        exact .setConn _ (fun _ => rfl) fun _ h => h
  | pumpExit c =>
    simp only [step] at hstep
    split at hstep
    · cases hstep
    · cases hstep
      refine (hframe (State.Quiet.frame ?_)).trans (add_zero _).symm
      exact .setConn _ (fun _ => rfl) fun _ _ => rfl
  | drop c =>
    cases hstep
    refine (hframe (State.Quiet.frame ?_)).trans (add_zero _).symm
    exact .setConn _ (fun _ => rfl) fun _ _ => rfl
  | closing r pick => rw [hframe (runClosing_frame hstep)]; exact (add_zero _).symm
  | janitor pick => rw [hframe (runJanitor_frame hstep)]; exact (add_zero _).symm
  | shutdown pick => rw [hframe (runShutdown_frame hstep)]; exact (add_zero _).symm
  | clock t => cases hstep; exact (add_zero _).symm

/-- The counter is what has been accepted and not released, and what is on hold. -/
theorem counter_of_trace (hl : (relay cfg).Trace l s) (hok : ∀ t ∈ l, InRange t.before t.label) :
    s.inflight.toInt = carried l + refused s := by
  induction hl with
  | nil => simp [carried, refused, relay]
  | @snoc l s s' a hl hs ih =>
    have hfront : ∀ t ∈ l, InRange t.before t.label := fun t ht => hok t (List.mem_append_left _ ht)
    have hrange : InRange s a := hok ⟨s, a, s'⟩ (by simp)
    have hstep := counter_step (sound_of_reach hl.reach)
      (solvent_of_reach (hl.reach_steps hfront)) hrange hs
    have hcarried : carried (l ++ [⟨s, a, s'⟩]) = carried l + Ran.change ⟨s, a, s'⟩ := by
      simp [carried]
    rw [hcarried]
    have hs := ih hfront
    omega

/-! ## Every decision -/

/-- A decision is made in `AddInflight` and compares what is on the counter. -/
theorem decision_spec {size : Nat} {ok : Bool} (hstep : step cfg s a = some s')
    (hd : Ran.decision ⟨s, a, s'⟩ = some (c, size, ok)) :
    ∃ draw allow r t cur i d k, a = .run c draw allow ∧
      (s.conns c).pc = .member r (.addInflight t cur i d :: k) ∧ size = Payload.len d ∧
      ok = decide (s.inflight + chunkSize d ≤ cfg.maxInflightBytes) := by
  cases a with
  | run c' draw allow =>
    simp only [Ran.decision] at hd
    split at hd
    · rename_i r t cur i d k _ _ _ _ _ _ hpc hpc'
      cases hd
      refine ⟨draw, allow, r, t, cur, i, d, k, rfl, hpc, rfl, ?_⟩
      simp only [step, hpc, runPc, runOp] at hstep
      split at hstep
      · cases hstep
        simp [State.goto, State.setConn] at hpc'
      · rename_i hle
        exact (decide_eq_true (Int64.not_lt.mp hle)).symm
    · rename_i r t cur i d k hpc hno
      cases hd
      refine ⟨draw, allow, r, t, cur, i, d, k, rfl, hpc, rfl, ?_⟩
      simp only [step, hpc, runPc, runOp] at hstep
      split at hstep
      · rename_i hgt
        exact (decide_eq_false (Int64.not_le.mpr hgt)).symm
      · cases hstep
        refine absurd ?_ (hno r t cur i d k)
        simp [State.goto, State.setConn]
    · cases hd
  | _ => cases hd

theorem refused_nonneg (h : Solvent cfg.uncapped s) : 0 ≤ refused s := by
  refine Finset.sum_nonneg fun c _ => ?_
  have hchecked := (h.capped c).checked
  unfold onHold
  split
  · rename_i hpc
    rw [hpc] at hchecked
    exact hchecked
  · exact le_rfl

/-- If no addition leaves the range of an `int64` and no refused chunk tips the balance, every decision
is the atomic one at the moment of its `AddInflight`. -/
theorem chunk_decisions_atomic (hl : (relay cfg).Trace l s)
    (hok : ∀ t ∈ l, InRange t.before t.label ∧ tipped cfg t.before t.label = false) :
    Linearizable cfg l s := by
  intro n t c size ok ht hd
  obtain ⟨hn, -, hstep⟩ := hl.at ht
  obtain ⟨hrange, hbalance⟩ := hok t (List.mem_of_getElem? ht)
  have hbefore : ∀ u ∈ l.take n, InRange u.before u.label := fun u hu =>
    (hok u (List.mem_of_mem_take hu)).1
  have hsolvent := solvent_of_reach (hn.reach_steps hbefore)
  have hcounter := counter_of_trace hn hbefore
  have hpos := refused_nonneg hsolvent
  obtain ⟨draw, allow, r, f, cur, i, d, k, ha, hpc, rfl, rfl⟩ := decision_spec hstep hd
  refine ⟨n, ⟨?_, fun j x hj hj' hx => ?_⟩, ?_⟩
  · exact (List.getElem?_eq_some_iff.mp ht).1.le
  · obtain rfl : j = n := by omega
    rw [states_getElem ht] at hx
    cases hx
    rw [hpc]
    rfl
  · -- the sum that is compared is the integer sum
    have hc := hsolvent.started c (by simp [hpc])
    have hfit := hrange c hc
    rw [hpc] at hfit
    have hfit' : t.before.inflight.toInt + Payload.len d < 2 ^ 63 := by simpa [fits] using hfit
    have hcount : 0 ≤ t.before.inflight.toInt :=
      (Finset.sum_nonneg fun c _ => due_nonneg (hsolvent.capped c)).trans hsolvent.counted
    obtain ⟨-, hadd⟩ := chunkSize_fits hcount hfit'
    have hsize : (chunkSize d).toInt = Payload.len d := Int64.toInt_ofNat_of_lt (by omega)
    have hnot : ¬ (t.before.inflight.toInt - refused t.before + Payload.len d ≤
        cfg.maxInflightBytes.toInt ∧ cfg.maxInflightBytes.toInt <
          t.before.inflight.toInt + Payload.len d) := by
      simpa [tipped, ha, hpc] using hbalance
    rw [decide_eq_decide, Int64.le_iff_toInt_le, hadd, hsize]
    omega

end

/-! ## Two senders -/

def smallConfig : Config := { sampleConfig with maxInflightBytes := 2 }

/-- Client 2 sends a chunk of 1 byte; before that client 1 begins to send one of `text`, up to the
comparison. -/
def sampleBusy (text : String) : List (Act String) :=
  sampleOpen ++ sampleInvite ++ sampleRedeem ++ sampleEnter ++
    (.frame 1 (.fileStart "f" "" "") :: ops 1 2 ++ .frame 1 (.fileChunk "f" 0 text) :: ops 1 2) ++
    (.frame 2 (.fileStart "g" "" "") :: ops 2 2 ++ .frame 2 (.fileChunk "g" 0 "x") :: ops 2 2)

theorem sampleBusy_some : ((relay smallConfig).stepsFrom (relay smallConfig).init
    (sampleBusy "y")).isSome = true := by decide +kernel

/-- Both chunks fit, and both are accepted. -/
theorem chunk_decisions_atomic_sample :
    let r := ((relay smallConfig).stepsFrom (relay smallConfig).init (sampleBusy "y")).get
      sampleBusy_some
    Linearizable smallConfig r.1 r.2 ∧
      r.1.filterMap Ran.decision = [(1, 1, true), (2, 1, true)] := by
  have hok : (((relay smallConfig).stepsFrom (relay smallConfig).init (sampleBusy "y")).get
      sampleBusy_some).1.all (fun t => decide (InRange t.before t.label) &&
        !tipped smallConfig t.before t.label) = true := by decide +kernel
  refine ⟨chunk_decisions_atomic (Machine.trace_get sampleBusy_some) fun t ht => ?_, by decide +kernel⟩
  have h := List.all_eq_true.mp hok t ht
  rw [Bool.and_eq_true, decide_eq_true_eq, Bool.not_eq_true'] at h
  exact h

theorem sampleBusy_refused_some : ((relay smallConfig).stepsFrom (relay smallConfig).init
    (sampleBusy "abc")).isSome = true := by decide +kernel

/-- The chunk of client 1 does not fit; until it is taken off again that of client 2 does not
either, though nothing at all has been accepted. -/
theorem busy_while_refusing : ∃ l s, (relay (D := String) smallConfig).Trace l s ∧
    (∀ t ∈ l, InRange t.before t.label) ∧ ¬ Linearizable smallConfig l s := by
  have hrange : (((relay smallConfig).stepsFrom (relay smallConfig).init (sampleBusy "abc")).get
      sampleBusy_refused_some).1.all (fun t => decide (InRange t.before t.label)) = true := by
    decide +kernel
  have hzero : (((relay smallConfig).stepsFrom (relay smallConfig).init (sampleBusy "abc")).get
      sampleBusy_refused_some).1.all (fun t => Ran.change t = 0) = true := by decide +kernel
  have hlast : (((relay smallConfig).stepsFrom (relay smallConfig).init (sampleBusy "abc")).get
      sampleBusy_refused_some).1.getLast?.bind Ran.decision = some (2, 1, false) := by decide +kernel
  have hl := Machine.trace_get sampleBusy_refused_some
  generalize (((relay smallConfig).stepsFrom (relay smallConfig).init (sampleBusy "abc")).get
    sampleBusy_refused_some) = r at hrange hzero hlast hl
  refine ⟨r.1, r.2, hl, fun t ht => of_decide_eq_true (List.all_eq_true.mp hrange t ht), fun h => ?_⟩
  obtain ⟨t, ht, hd⟩ := Option.bind_eq_some_iff.mp hlast
  rw [List.getLast?_eq_getElem?] at ht
  obtain ⟨m, -, hm⟩ := h _ t 2 1 false ht hd
  have hcarried : carried (r.1.take m) = 0 := by
    refine List.sum_eq_zero fun x hx => ?_
    obtain ⟨u, hu, rfl⟩ := List.mem_map.mp hx
    exact of_decide_eq_true (List.all_eq_true.mp hzero u (List.mem_of_mem_take hu))
  rw [hcarried] at hm
  revert hm
  decide

end E2EAnon.Relay
