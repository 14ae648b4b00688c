import E2EAnon.Relay.Control
import E2EAnon.Relay.Admission

/-!
# Invites of a closed room (`room.go:227`, `invites.go:17-63`, `server.go:384`)

`Close` takes the members out, unregisters the room and drops its invites in three sections;
`handleInvite` asks for the owner in one and registers the invite in another. A close that the owner's
own `Leave` has begun cannot come between the two, because the owner's goroutine is busy with one of
them (`reaped_of_acting`). The janitor and `Shutdown` can.
-/

namespace E2EAnon.Relay

open Lib

variable {D : Type} {cfg : Config}

/-- `Close` has dropped the invites of the room. -/
def Closing.swept : Closing → Bool
  | .no | .removeRoom _ _ | .dropInvites _ _ => false
  | _ => true

/-- In a handler of a member of `r`. -/
def Pc.handles (r : RoomId) : Pc D → Bool
  | .member r' (_ :: _) => r' = r
  | _ => false

/-- Once `Close` of a room has returned and no connection is in a handler of it, no invite to it is
left. -/
def NoDeadInvite (s : State D) : Prop :=
  ∀ r, (s.room r).closing = .done → (∀ c, (s.conns c).pc.handles r = false) →
    ∀ tok inv, s.invites tok = some inv → inv.room ≠ r

/-- `CreateInvite` registers an invite to a room whose invites a close of the janitor or of `Shutdown`
has dropped since the ownership check. -/
def tooLate (s : State D) : Act D → Bool
  | .run c _ _ =>
    match (s.conns c).pc with
    | .member r (.owned .invite :: _) => (s.room r).closing.swept && .reaped r ∈ s.log
    | _ => false
  | _ => false

/-! ## Who can close the room of a request -/

section
variable {may : May} {f f' : Floor D}

/-- A room closed under a request that has passed its check was closed by the janitor or `Shutdown`. -/
def Held (f : Floor D) : Prop :=
  ∀ c r q, f.phase c = .acting r q → (f.room r).closed = true → .reaped r ∈ f.log

theorem Held.move (h : Held f) (hi : Inv cfg f) (hm : Move cfg may f f') : Held f' := by
  unfold Held at h ⊢
  have acting := hi.acting
  have closing := hi.closing
  have drawn := hi.drawn
  have room_ref := hi.room_ref
  cases hm <;> first | exact h | skip
  all_goals
    intro c r q hc hcl
    simp only [Floor.goto, Floor.setRoom, Floor.note, Floor.close, Floor.addRoom, Floor.dropRoom,
      Floor.closeRoom, Function.update_apply, Floor.ownerClient_eq_some] at *
    grind -ring -linarith [Phase.room?]

/-- No invite to a room whose invites have been dropped. -/
def Swept (f : Floor D) : Prop :=
  ∀ r, (f.room r).closing.swept = true → ∀ t inv, f.invites t = some inv → inv.room ≠ r

theorem Swept.move (h : Swept f) (hi : Inv cfg f) (hh : Held f) (hm : Move cfg may f f')
    (hlate : ∀ c r, f.phase c = .acting r .invite → f'.phase c ≠ .acting r .invite →
      (f.room r).closing.swept = true → .reaped r ∉ f.log) : Swept f' := by
  unfold Swept at h ⊢
  unfold Held at hh
  have open_idle := hi.open_idle
  have invite_ref := hi.invite_ref
  cases hm <;> first | exact h | skip
  all_goals
    intro r hr t inv ht
    simp only [Floor.goto, Floor.setRoom, Floor.note, Floor.close, Floor.addRoom, Floor.dropRoom,
      Floor.closeRoom, Function.update_apply] at *
    grind -ring -linarith [Closing.swept, Option.filter_eq_some_iff]

end

theorem acting_todo {pc : Pc D} {r : RoomId} {q : OwnerReq D} (h : pc.phase = .acting r q) :
    ∃ k, pc = .member r (.owned q :: k) := by
  cases pc <;> simp only [Pc.phase, reduceCtorEq] at h
  case member r' todo =>
    unfold headPhase at h
    split at h <;> cases h
    exact ⟨_, rfl⟩

variable [Payload D] {s s' : State D} {a : Act D} {c : ClientId} {r : RoomId}

theorem held_of_reach {ok : State D → Act D → Prop} (hr : (relay cfg).Reach ok s) : Held s.floor :=
  hr.invariant (I := fun s => Held s.floor) (fun _ _ _ hc => by cases hc) fun _ _ _ hr' h _ hstep =>
    h.move (sound_of_reach hr').inv ((sound_of_reach hr').step_move hstep)

/-! ## Runs -/

/-- A handler goes on with a step of its own goroutine. -/
theorem handler_runs (hs : Sound cfg s) (h : step cfg s a = some s') {op : RoomOp D}
    {k : List (RoomOp D)} (hpc : (s.conns c).pc = .member r (op :: k))
    (hne : (s'.conns c).pc ≠ .member r (op :: k)) : ∃ draw allow, a = .run c draw allow := by
  generalize hpc' : (s'.conns c).pc = pc at hne
  cases hpc' ▸ Sound.step_pc h c with
  | same ha => exact absurd hpc hne
  | connected hello ha hd => exact absurd (member_drawn hs hpc) hd
  | read m _ ha hread =>
    rw [hpc] at hread
    cases hread
  | readErr _ ha hread =>
    rw [hpc] at hread
    cases hread
  | ran draw allow _ ha hnext => exact ⟨draw, allow, ha⟩

theorem Swept.step {ok : State D → Act D → Prop} (hr : (relay cfg).Reach ok s)
    (h : step cfg s a = some s') (hsw : Swept s.floor) (hok : tooLate s a = false) :
    Swept s'.floor := by
  have hs := sound_of_reach hr
  refine hsw.move hs.inv (held_of_reach hr) (hs.step_move h) fun c r hc hne hswept hreaped => ?_
  obtain ⟨k, hpc⟩ := acting_todo hc
  obtain ⟨draw, allow, rfl⟩ := handler_runs hs h hpc fun hpc' => hne <| by
    simp [State.floor, hpc', Pc.phase, headPhase]
  have hswept' : (s.room r).closing.swept = true := hswept
  have hreaped' : .reaped r ∈ s.log := hreaped
  simp [tooLate, hpc, hswept', hreaped'] at hok

/-- In every run in which no invite is registered after the janitor or `Shutdown` has dropped those of
its room, no invite to a room outlives it. -/
theorem no_dead_invite (hr : (relay cfg).Reach (fun s a => tooLate s a = false) s) :
    NoDeadInvite s := by
  have hswept : Swept s.floor :=
    hr.invariant (I := fun s => Swept s.floor) (fun _ hr => by cases hr)
      fun _ _ _ hr' h hok hstep => h.step hr' hstep hok
  intro r hdone _ tok inv hinv
  have hclosed : (s.floor.room r).closing.swept = true := by
    simp [State.floor, hdone, Closing.swept]
  exact hswept r hclosed tok inv hinv

/-! ## A request during `Shutdown` -/

/-- Client 1 asks for an invite; `Shutdown` comes after the ownership check, and the invite is
registered before its `Close` or once that has dropped the invites of the room. -/
def sampleStop (before after : List (Act String)) : List (Act String) :=
  sampleOpen ++ .frame 1 .invite :: ops 1 1 ++ before ++
    [.shutdown 0, .shutdown 100, .closing 100 0, .closing 100 0] ++ after ++
    List.replicate 4 (.closing 100 1)

/-- `CreateInvite` and the answer. -/
def sampleIssue : List (Act String) := [.run 1 200 true, .run 1 0 true]

theorem issuedBefore_some : ((relay sampleConfig).runFrom (fun s a => tooLate s a = false) {}
    (sampleStop sampleIssue [])).isSome = true := by decide +kernel

theorem no_dead_invite_sample :
    let s := ((relay sampleConfig).runFrom (fun s a => tooLate s a = false) {}
      (sampleStop sampleIssue [])).get issuedBefore_some
    (s.room 100).closing = .done ∧ .inviteCreated 1 100 200 300 ∈ s.log ∧ NoDeadInvite s :=
  ⟨by decide +kernel, by decide +kernel, no_dead_invite (Machine.reach_get issuedBefore_some)⟩

theorem issuedAfter_some : ((relay sampleConfig).stepsFrom (relay sampleConfig).init
    (sampleStop [] sampleIssue)).isSome = true := by decide +kernel

/-- `Close` has returned, client 1 waits for its next frame, and the invite to the closed room is
there. -/
theorem dead_invite : ∃ l s, (relay (D := String) sampleConfig).Trace l s ∧ ¬ NoDeadInvite s := by
  have hdone : ((((relay sampleConfig).stepsFrom (relay sampleConfig).init
      (sampleStop [] sampleIssue)).get issuedAfter_some).2.room 100).closing = .done := by
    decide +kernel
  have hidle : (((relay sampleConfig).stepsFrom (relay sampleConfig).init
      (sampleStop [] sampleIssue)).get issuedAfter_some).2.drawn.all (fun c =>
        !((((relay sampleConfig).stepsFrom (relay sampleConfig).init
          (sampleStop [] sampleIssue)).get issuedAfter_some).2.conns c).pc.handles 100) = true := by
    decide +kernel
  have hinvite : (((relay sampleConfig).stepsFrom (relay sampleConfig).init
      (sampleStop [] sampleIssue)).get issuedAfter_some).2.invites 200 = some ⟨100, 300⟩ := by
    decide +kernel
  have hl := Machine.trace_get issuedAfter_some
  refine ⟨_, _, hl, fun h => h 100 hdone (fun c => ?_) 200 _ hinvite rfl⟩
  by_cases hc : c ∈ (((relay sampleConfig).stepsFrom (relay sampleConfig).init
      (sampleStop [] sampleIssue)).get issuedAfter_some).2.drawn
  · exact Bool.eq_false_of_not_eq_true' (List.all_eq_true.mp hidle c hc)
  · refine Bool.eq_false_of_not_eq_true fun hh => ?_
    unfold Pc.handles at hh
    split at hh
    · rename_i hpc
      exact hc (member_drawn (sound_of_reach hl.reach) hpc)
    · cases hh

end E2EAnon.Relay
