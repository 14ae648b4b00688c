import E2EAnon.Relay.Refine

/-!
# Who a relayed frame comes from (`server.go:287-448`, `room.go:154-195`)

A member's read loop keeps running after `RemoveMember`: the socket stays open until the write pump
has drained. So each relayed frame needs its own check that its author is still a member. `Relay`
has one. Re-keys and rosters are checked through the ownership, which nobody but the owner's own
goroutine can take away. `BroadcastExcept` of a file frame has none (`room.go:154`).
-/

namespace E2EAnon.Relay

variable {D : Type} {cfg : Config}

/-! ## Kicked members -/

/-- In `memberLoop` of `r`. -/
def Phase.loops (r : RoomId) : Phase D → Prop
  | .member r' | .acting r' _ | .clearing r' _ => r' = r
  | _ => False

theorem Phase.room?_of_loops {p : Phase D} {r : RoomId} (h : p.loops r) : p.room? = some r := by
  cases p <;> simp_all [loops, room?]

structure Kicks (f : Floor D) : Prop where
  gone : ∀ c r, .kicked c r ∈ f.log →
    (f.phase c).joining = false ∧ ∀ r', c ∉ (f.room r').members
  loops : ∀ c r, (f.phase c).loops r →
    c ∈ (f.room r).members ∨ (f.room r).closed = true ∨ .kicked c r ∈ f.log

namespace Kicks

variable {may : May} {f f' : Floor D}

theorem gone_move (h : Kicks f) (hi : Inv cfg f) (hm : Move cfg may f f') :
    ∀ c r, .kicked c r ∈ f'.log →
      (f'.phase c).joining = false ∧ ∀ r', c ∉ (f'.room r').members := by
  have gone := h.gone
  have drawn := hi.drawn
  have mem := hi.mem
  have mem_unique := hi.mem_unique
  cases hm <;> first | exact gone | skip
  all_goals
    intro c r hc
    simp only [Floor.goto, Floor.setRoom, Floor.note, Floor.close, Floor.addRoom, Floor.dropRoom,
      Floor.closeRoom, Function.update_apply] at hc ⊢
    grind -ring -linarith [Phase.joining]

theorem loops_move (h : Kicks f) (hi : Inv cfg f) (hm : Move cfg may f f') :
    ∀ c r, (f'.phase c).loops r →
      c ∈ (f'.room r).members ∨ (f'.room r).closed = true ∨ .kicked c r ∈ f'.log := by
  have loops := h.loops
  have opening := hi.opening
  have room_ref := hi.room_ref
  have hsize := cfg.maxRoomSize_pos
  cases hm <;> first | exact loops | skip
  all_goals
    intro c r hc
    have hl := loops c r
    simp only [Floor.goto, Floor.setRoom, Floor.note, Floor.close, Floor.addRoom, Floor.dropRoom,
      Floor.closeRoom, Function.update_apply] at hc ⊢
    grind -ring -linarith [Phase.loops, → Phase.room?_of_loops]

theorem move (h : Kicks f) (hi : Inv cfg f) (hm : Move cfg may f f') : Kicks f' :=
  ⟨h.gone_move hi hm, h.loops_move hi hm⟩

theorem init : Kicks ({} : State D).floor := by
  constructor <;> simp [State.floor, Pc.phase, Phase.loops]

end Kicks

/-! ## Payloads -/

/-- A file frame: `file_start`, `file_chunk`, `file_end`, `file_abort`. -/
def RoomOp.file : RoomOp D → Bool
  | .broadcastFile _ => true
  | _ => false

/-- The operations that queue a payload of their author to other members. -/
def RoomOp.payload : RoomOp D → Bool
  | .relay _ | .owned (.rekey _ _) | .owned (.roster _) | .broadcastFile _ => true
  | _ => false

theorem out_goto (s₁ : State D) (pc : Pc D) (c d : ClientId) :
    ((s₁.goto c pc).conns d).out = (s₁.conns d).out := by
  by_cases hd : d = c
  · subst hd
    simp [State.goto, State.setConn]
  · simp [State.goto, State.setConn, hd]

section
variable [Payload D] {ok : State D → Act D → Prop} {s s' : State D} {c : ClientId} {r : RoomId}
  {op : RoomOp D} {k : List (RoomOp D)} {draw : Handle} {allow : Bool}

theorem kicks_of_reach (hr : (relay (D := D) cfg).Reach ok s) : Kicks s.floor :=
  hr.invariant (I := fun s => Kicks s.floor) Kicks.init fun _ _ _ hr' h _ hstep =>
    h.move (sound_of_reach hr').inv ((sound_of_reach hr').step_move hstep)

/-- A payload is queued only in an open room. -/
theorem open_of_queued (hop : op.payload = true) (h : runOp cfg s c draw r k op = some s')
    (hq : ∃ d, (s'.conns d).out ≠ (s.conns d).out) : (s.room r).closed = false := by
  by_contra hcl
  obtain ⟨d, hd⟩ := hq
  have hclosed := Bool.eq_true_of_not_eq_false hcl
  cases op <;> simp only [RoomOp.payload, Bool.false_eq_true] at hop
  case relay body =>
    cases h
    simp [out_goto, State.relay, hclosed] at hd
  case owned q =>
    cases q <;> simp only [Bool.false_eq_true] at hop <;> cases h
    · simp [out_goto, State.sendTo, hclosed] at hd
    · simp [out_goto, State.broadcastExcept, hclosed] at hd
  case broadcastFile m =>
    cases h
    simp [out_goto, State.broadcastExcept, hclosed] at hd

/-- **Who a relayed frame comes from.** Whenever a handler queues a payload of `c` to anybody in
room `r`, `c` is a member of `r`, except for one case: it is a file frame and `c` has been kicked
from `r`. -/
theorem author_is_member (hr : (relay (D := D) cfg).Reach Lib.Machine.Any s)
    (hpc : (s.conns c).pc = .member r (op :: k)) (hop : op.payload = true)
    (hstep : (relay cfg).step s (.run c draw allow) = some s')
    (hq : ∃ d, (s'.conns d).out ≠ (s.conns d).out) :
    c ∈ (s.room r).members ↔ ¬ (op.file = true ∧ .kicked c r ∈ s.log) := by
  have hi := (sound_of_reach hr).inv
  have hk := kicks_of_reach hr
  have hrun : runOp cfg s c draw r k op = some s' := by
    simpa only [relay, step, hpc, runPc] using hstep
  have hopen := open_of_queued hop hrun hq
  have hph : s.floor.phase c = headPhase r (op :: k) := by
    simp only [State.floor, hpc, Pc.phase]
  -- an owner-only request: only the owner's own goroutine gives the ownership away
  have owner : ∀ q, s.floor.phase c = .acting r q → c ∈ (s.room r).members := by
    intro q hact
    obtain hcl | ho := hi.acting c r q hact
    · exact absurd hcl (by simp [State.floor, hopen])
    · exact hi.owner_mem r c ho
  refine ⟨fun hm hbad => (hk.gone c r hbad.2).2 r hm, fun hgood => ?_⟩
  cases op <;> simp only [RoomOp.payload, Bool.false_eq_true] at hop
  case relay body =>
    by_contra hm
    obtain ⟨d, hd⟩ := hq
    cases hrun
    simp [out_goto, State.relay, hm] at hd
  case owned q => exact owner q hph
  case broadcastFile m =>
    obtain hm | hcl | hkick := hk.loops c r (by rw [hph]; exact rfl)
    · exact hm
    · exact absurd hcl (by simp [State.floor, hopen])
    · exact absurd ⟨rfl, hkick⟩ hgood

end

/-- Client 2 has sent a chat message; `Relay` is next. -/
def chatting : State String :=
  ((relay sampleConfig).run (sampleOpen ++ sampleInvite ++ sampleRedeem ++ sampleEnter ++
    [.frame 2 (.msg "hi")])).get (by decide +kernel)

theorem chatting_step : ((relay sampleConfig).step chatting (.run 2 0 true)).isSome = true := by
  decide +kernel

theorem author_is_member_sample : 2 ∈ (chatting.room 100).members :=
  (author_is_member (Lib.Machine.reach_of_run (Option.some_get _).symm)
    (by decide +kernel : (chatting.conns 2).pc = .member 100 [.relay "hi"]) rfl
    (Option.some_get chatting_step).symm ⟨1, by decide +kernel⟩).mpr (by simp [RoomOp.file])

/-- Client 2 was kicked; its read loop took a `file_start`, whose broadcast is next. -/
def kicked : State String :=
  ((relay sampleConfig).run (sampleOpen ++ sampleInvite ++ sampleRedeem ++ sampleEnter ++
    .frame 1 (.kick 2) :: ops 1 3 ++ .frame 2 (.fileStart "f" "" "") :: ops 2 1)).get
    (by decide +kernel)

theorem kicked_member_sends_file :
    (relay sampleConfig).Reach Lib.Machine.Any kicked ∧
    (kicked.conns 2).pc = .member 100 [.broadcastFile
      { (fileMsg .fileStart "f" 2) with keyId := some "", data := some "", nick := some "bob" }] ∧
    ((relay sampleConfig).step kicked (.run 2 0 true)).any
      (fun s' => (s'.conns 1).out ≠ (kicked.conns 1).out) = true ∧
    2 ∉ (kicked.room 100).members :=
  ⟨Lib.Machine.reach_of_run (Option.some_get _).symm, by decide +kernel, by decide +kernel,
    by decide +kernel⟩

end E2EAnon.Relay
