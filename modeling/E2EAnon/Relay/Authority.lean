import E2EAnon.Relay.Frames
import E2EAnon.Relay.Rooms

/-!
# Owner-only requests (`server.go:287-448`, `room.go:117-255`)

A privileged request is checked in one critical section and carried out in another; `Leave` decides
in one and calls `Close` in another. Only the owner's own goroutine moves the ownership, and it runs
one handler at a time, so the check still holds when the request is carried out.
-/

namespace E2EAnon.Relay

open Lib

variable {D : Type} {cfg : Config} {s s' : State D} {a : Act D}

/-- What the check found still holds in the section it was for. -/
theorem owner_of_owned (hs : Sound cfg s) {c : ClientId} {r : RoomId} {q : OwnerReq D}
    {k : List (RoomOp D)} (hpc : (s.conns c).pc = .member r (.owned q :: k))
    (hopen : (s.room r).closed = false) : (s.room r).ownerID = some c := by
  have hph : s.floor.phase c = .acting r q := by simp only [State.floor, hpc, Pc.phase, headPhase]
  obtain hcl | ho := hs.inv.acting c r q hph
  · simp [State.floor, hopen] at hcl
  · exact ho

theorem owner_of_leaveClose (hs : Sound cfg s) {c : ClientId} {r : RoomId}
    {reason : Option Reason} (hpc : (s.conns c).pc = .leaveClose r reason)
    (hopen : (s.room r).closed = false) : (s.room r).ownerID = some c := by
  have hph : s.floor.phase c = .closing r := by simp only [State.floor, hpc, Pc.phase]
  obtain hcl | ho := hs.inv.closing c r hph
  · simp [State.floor, hopen] at hcl
  · exact ho

variable [Payload D]

/-- Only the owner's own transfer moves the ownership of a room that stays live. -/
theorem owner_moves (hs : Sound cfg s) (hstep : step cfg s a = some s') {r : RoomId} {o : ClientId}
    (ho : (s.room r).ownerID = some o) (hopen' : (s'.room r).closed = false)
    (hne : (s'.room r).ownerID ≠ some o) : ∃ draw allow t k, a = .run o draw allow ∧
      (s.conns o).pc = .member r (.owned (.transfer t) :: k) ∧ (s'.room r).ownerID = some t := by
  have hmem : o ∈ (s.room r).members := hs.inv.owner_mem r o ho
  generalize hrm : s'.room r = rm at hopen' hne
  cases hrm ▸ hs.step_room hstep r with
  | same | touched | closing | kicked | left => exact absurd ho hne
  | created c allow t ha hpc hr =>
    have hempty : (s.room r).members = [] := (hs.inv.room_drawn r hr).1
    simp [hempty] at hmem
  | added c draw allow t ha hpc hopen hcap =>
    have hnil : (s.room r).members ≠ [] := List.ne_nil_of_mem hmem
    simp [Floor.addRoom, hnil, ho] at hne
  | transferred c draw allow target k t ha hpc hopen hm =>
    have hc : some o = some c := ho.symm.trans (owner_of_owned hs hpc hopen)
    cases hc
    exact ⟨draw, allow, target, k, ha, hpc, rfl⟩
  | destroyed | reaped => simp [Floor.closeRoom] at hopen'

/-- Who goes out of a room that stays live leaves it, or is kicked by its owner. -/
theorem member_goes (hs : Sound cfg s) (hstep : step cfg s a = some s') {r : RoomId} {v : ClientId}
    (hv : v ∈ (s.room r).members) (hopen' : (s'.room r).closed = false)
    (hv' : v ∉ (s'.room r).members) : ∃ c draw allow, a = .run c draw allow ∧
      (c = v ∧ (s.conns c).pc = .leave r ∨ (s.room r).ownerID = some c ∧
        ∃ k, (s.conns c).pc = .member r (.owned (.kick v) :: k)) := by
  generalize hrm : s'.room r = rm at hopen' hv'
  cases hrm ▸ hs.step_room hstep r with
  | same | touched | closing | transferred => exact absurd hv hv'
  | created c allow t ha hpc hr =>
    have hempty : (s.room r).members = [] := (hs.inv.room_drawn r hr).1
    simp [hempty] at hv
  | added c draw allow t ha hpc hopen hcap =>
    refine absurd ?_ hv'
    simp only [Floor.addRoom]
    split <;> simp [hv]
  | kicked c draw allow w k t ha hpc hopen hm hw =>
    have hwv : v = w := by simpa [Floor.dropRoom, hv] using hv'
    subst hwv
    exact ⟨c, draw, allow, ha, .inr ⟨owner_of_owned hs hpc hopen, k, hpc⟩⟩
  | left c draw allow t ha hpc hopen hm ho =>
    have hcv : v = c := by simpa [Floor.dropRoom, hv] using hv'
    exact ⟨c, draw, allow, ha, .inl ⟨hcv.symm, hpc⟩⟩
  | destroyed | reaped => simp [Floor.closeRoom] at hopen'

/-- Who destroys a room. -/
theorem room_goes (hs : Sound cfg s) (hstep : step cfg s a = some s') {r : RoomId}
    (hopen : (s.room r).closed = false) (hcl : (s'.room r).closed = true) :
    (∃ c draw allow reason, a = .run c draw allow ∧ (s.conns c).pc = .leaveClose r reason ∧
      (s.room r).ownerID = some c) ∨ ∃ pick, a = .janitor pick ∨ a = .shutdown pick := by
  generalize hrm : s'.room r = rm at hcl
  cases hrm ▸ hs.step_room hstep r with
  | destroyed c draw allow reason ha hpc hopen =>
    exact .inl ⟨c, draw, allow, reason, ha, hpc, owner_of_leaveClose hs hpc hopen⟩
  | reaped pick reason ha hopen => exact .inr ⟨pick, ha⟩
  | _ => simp_all [Floor.addRoom, Floor.dropRoom]

/-- A rekey or a roster comes from the owner. -/
theorem owner_of_posts {l : List (Machine.Transition (State D) (Act D))}
    (hl : (relay cfg).Trace l s) {d : ClientId} {m : ServerMsg D} (hp : s.posts a d = some m)
    (hm : m.type = .rekey ∨ m.type = .roster) : ∃ c draw allow r, a = .run c draw allow ∧
      (s.room r).closed = false ∧ (s.room r).ownerID = some c ∧ d ∈ (s.room r).members := by
  have hs := sound_of_reach hl.reach
  have hfit := fit_of_trace hl
  obtain ⟨b, hb, hd, rfl⟩ | ⟨hdir, -⟩ := posts_cases hp
  · obtain ⟨c, draw, allow, rfl, hsite⟩ := broadcast_cases hb
    cases hsite with
    | roster r x k hpc hopen =>
      exact ⟨c, draw, allow, r, rfl, hopen, owner_of_owned hs hpc hopen,
        List.mem_of_mem_filter hd⟩
    | file r m k hpc hopen =>
      have hft := (fit_of_broadcast (hfit c) hpc).1
      obtain hm | hm := hm <;> simp only [State.others] at hm <;> simp [hm, fileType] at hft
    | presence | relay | kick | leave =>
      simp [State.presence, State.presenceMsg, State.others, State.chatMsg] at hm
  · cases direct_cases hfit hdir with
    | own _ hp ht => obtain hm | hm := hm <;> simp [hm, relayType] at ht
    | redeemOk | inviteRedeemed => simp at hm
    | rekey c draw allow r x k ha hpc hopen hmem =>
      exact ⟨c, draw, allow, r, ha, hopen, owner_of_owned hs hpc hopen, hmem⟩
    | peer c draw allow type y x hs ha hh hp ht hx =>
      obtain hm | hm := hm <;> simp only at hm <;> simp [hm, handshakeType] at ht

/-- **Owner-only authority.** In every run and for every step of it: a privileged request is carried
out on a live room only by the room's owner at that instant; the ownership of a live room moves only
by the owner's own transfer; a member goes out of a live room only by leaving it or by a kick of the
owner; `Leave` destroys a room only for its owner; a rekey or a roster reaches a member only from
the owner. -/
theorem owner_only_authority {l : List (Machine.Transition (State D) (Act D))}
    (hl : (relay cfg).Trace l s) (hstep : (relay cfg).step s a = some s') :
    (∀ c draw allow r q k, a = .run c draw allow →
      (s.conns c).pc = .member r (.owned q :: k) → (s.room r).closed = false →
      (s.room r).ownerID = some c) ∧
    (∀ r o, (s.room r).ownerID = some o → (s'.room r).closed = false →
      (s'.room r).ownerID ≠ some o → ∃ draw allow t k, a = .run o draw allow ∧
        (s.conns o).pc = .member r (.owned (.transfer t) :: k) ∧ (s'.room r).ownerID = some t) ∧
    (∀ r v, v ∈ (s.room r).members → (s'.room r).closed = false → v ∉ (s'.room r).members →
      ∃ c draw allow, a = .run c draw allow ∧ (c = v ∧ (s.conns c).pc = .leave r ∨
        (s.room r).ownerID = some c ∧ ∃ k, (s.conns c).pc = .member r (.owned (.kick v) :: k))) ∧
    (∀ r, (s.room r).closed = false → (s'.room r).closed = true →
      (∃ c draw allow reason, a = .run c draw allow ∧ (s.conns c).pc = .leaveClose r reason ∧
        (s.room r).ownerID = some c) ∨ ∃ pick, a = .janitor pick ∨ a = .shutdown pick) ∧
    (∀ d m, (s'.conns d).out = (s.conns d).out ++ [m] → m.type = .rekey ∨ m.type = .roster →
      ∃ c draw allow r, a = .run c draw allow ∧ (s.room r).closed = false ∧
        (s.room r).ownerID = some c ∧ d ∈ (s.room r).members) := by
  have hs := sound_of_reach hl.reach
  refine ⟨fun c draw allow r q k _ hpc hopen => owner_of_owned hs hpc hopen,
    fun r o ho hopen' hne => owner_moves hs hstep ho hopen' hne,
    fun r v hv hopen' hv' => member_goes hs hstep hv hopen' hv',
    fun r hopen hcl => room_goes hs hstep hopen hcl,
    fun d m hq hm => owner_of_posts hl (hs.posts_of_queued hstep hq).1 hm⟩

/-- Client 1 has asked to kick client 2 and passed the check. -/
def kicking : List (Act String) := sampleEntered ++ .frame 1 (.kick 2) :: ops 1 1

theorem kicking_some : ((relay sampleConfig).stepsFrom {} kicking).isSome = true := by
  decide +kernel

theorem kicking_step : ((relay sampleConfig).step
    (((relay sampleConfig).stepsFrom {} kicking).get kicking_some).2 (.run 1 0 true)).isSome =
      true := by
  decide +kernel

theorem owner_only_authority_sample :
    ((((relay sampleConfig).stepsFrom {} kicking).get kicking_some).2.room 100).ownerID = some 1 :=
  (owner_only_authority (Machine.trace_get kicking_some) (Option.some_get kicking_step).symm).1
    1 0 true 100 (.kick 2) [] rfl (by decide +kernel) (by decide +kernel)

end E2EAnon.Relay
