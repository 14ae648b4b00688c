import E2EAnon.Relay.Admission
import E2EAnon.Relay.Sessions

/-!
# Nothing outlives its connection (`server.go:114-246`, `room.go:197-255`)

The handshakes, the claim and the bytes of a connection are released by the deferred calls of
`session`; leaving the room is straight-line code after `memberLoop`. So a member whose handler
panics stays in the room (`dead_owner`), and a joiner that read the owner before the owner left can
still register a handshake with it after the owner's `EndHandshakesFor`. `Clean` excludes these two
steps; `nothing_outlives` is about the runs without them.
-/

namespace E2EAnon.Relay

variable {D : Type} {cfg : Config}

/-- Past the deferred `EndHandshakesFor`. -/
def Phase.parting : Phase D → Bool
  | .parted | .over => true
  | _ => false

/-- Past `memberLoop`, `Leave` and `CloseOut`. -/
def Phase.ended : Phase D → Bool
  | .left | .parted | .over => true
  | _ => false

structure Cleanup (f : Floor D) : Prop where
  handshakes : ∀ h hs, f.handshakes h = some hs →
    (f.phase hs.joiner).parting = false ∧ (f.phase hs.owner).parting = false
  after : ∀ c, f.panicked c = true → (f.phase c).ended = true
  alive : ∀ r c, c ∈ (f.room r).members → f.panicked c = false
  occupied : ∀ r ∈ f.rooms, (f.room r).closed = false →
    (f.room r).members ≠ [] ∨ ∃ c, f.phase c = .opening r
  closing : ∀ r ∈ f.rooms, (f.room r).closed = true →
    (∃ c, f.phase c = .waiting r) ∨ .reaped r ∈ f.log
  listed : ∀ r ∈ f.rooms, (f.room r).closing = .no ∨
    ∃ reason ms, (f.room r).closing = .removeRoom reason ms

/-- What a move must not do: let a member panic, or hand a handshake to a parting client. -/
structure May.Clean (may : May) (f : Floor D) : Prop where
  send : ∀ c dst r, may.send c dst → f.phase c = .member r → f.shut dst = true →
    c ∉ (f.room r).members
  pair : ∀ o, may.pair o → (f.phase o).parting = false

namespace Cleanup

variable {may : May} {f f' : Floor D}

theorem handshakes_move (h : Cleanup f) (hc : may.Clean f) (hm : Move cfg may f f') :
    ∀ h hs, f'.handshakes h = some hs →
      (f'.phase hs.joiner).parting = false ∧ (f'.phase hs.owner).parting = false := by
  have handshakes := h.handshakes
  have pair := hc.pair
  cases hm <;> first | exact handshakes | skip
  all_goals
    intro h hs hh
    simp only [Floor.goto, Floor.setRoom, Floor.note, Floor.close, Function.update_apply] at hh ⊢
    grind -ring -linarith [Phase.parting, Option.filter_eq_some_iff]

theorem after_move (after : ∀ c, f.panicked c = true → (f.phase c).ended = true)
    (hm : Move cfg may f f') : ∀ c, f'.panicked c = true → (f'.phase c).ended = true := by
  cases hm <;> first | exact after | skip
  all_goals
    intro c hp
    have ha := after c
    simp only [Floor.goto, Floor.setRoom, Floor.note, Floor.close, Function.update_apply] at hp ⊢
    grind -ring -linarith [Phase.ended]

theorem alive_move (h : Cleanup f) (hi : Inv cfg f) (hc : may.Clean f) (hm : Move cfg may f f') :
    ∀ r c, c ∈ (f'.room r).members → f'.panicked c = false := by
  have alive := h.alive
  have after := h.after
  have mem := hi.mem
  have drawn := hi.drawn
  have send := hc.send
  cases hm <;> first | exact alive | skip
  all_goals
    intro r c hc
    simp only [Floor.goto, Floor.setRoom, Floor.note, Floor.close, Floor.addRoom, Floor.dropRoom,
      Floor.closeRoom, Function.update_apply] at hc ⊢
    grind -ring -linarith [Phase.ended, Phase.joining, Phase.serves]

theorem occupied_move (h : Cleanup f) (hi : Inv cfg f) (hm : Move cfg may f f') :
    ∀ r ∈ f'.rooms, (f'.room r).closed = false →
      (f'.room r).members ≠ [] ∨ ∃ c, f'.phase c = .opening r := by
  have occupied := h.occupied
  have opening := hi.opening
  have others := @hi.others
  have drawn := hi.drawn
  have hsize := cfg.maxRoomSize_pos
  cases hm <;> first | exact occupied | skip
  all_goals
    intro r hr hcl
    have ho := occupied r
    simp only [Floor.goto, Floor.setRoom, Floor.note, Floor.close, Floor.addRoom, Floor.dropRoom,
      Floor.closeRoom, Function.update_apply] at hr hcl ⊢
    grind -ring -linarith [List.append_eq_nil_iff]

theorem listed_move (h : Cleanup f) (hi : Inv cfg f) (hm : Move cfg may f f') :
    ∀ r ∈ f'.rooms, (f'.room r).closing = .no ∨
      ∃ reason ms, (f'.room r).closing = .removeRoom reason ms := by
  have listed := h.listed
  have open_idle := hi.open_idle
  cases hm <;> first | exact listed | skip
  all_goals
    intro r hr
    have hl := listed r
    simp only [Floor.goto, Floor.setRoom, Floor.note, Floor.close, Floor.addRoom, Floor.dropRoom,
      Floor.closeRoom, Function.update_apply] at hr ⊢
    grind -ring -linarith

theorem closing_move (h : Cleanup f) (hi : Inv cfg f) (hm : Move cfg may f f') :
    ∀ r ∈ f'.rooms, (f'.room r).closed = true →
      (∃ c, f'.phase c = .waiting r) ∨ .reaped r ∈ f'.log := by
  have closing := h.closing
  have listed := h.listed
  have drawn := hi.drawn
  -- `closeWaited` finds the room out of the map
  cases hm <;> first | exact closing | skip
  all_goals
    intro r hr hcl
    have hc := closing r
    have hl := listed r
    simp only [Floor.goto, Floor.setRoom, Floor.note, Floor.close, Floor.addRoom, Floor.dropRoom,
      Floor.closeRoom, Function.update_apply] at hr hcl ⊢
    grind -ring -linarith

theorem move (h : Cleanup f) (hi : Inv cfg f) (hc : may.Clean f) (hm : Move cfg may f f') :
    Cleanup f' where
  handshakes := h.handshakes_move hc hm
  after := after_move h.after hm
  alive := h.alive_move hi hc hm
  occupied := h.occupied_move hi hm
  closing := h.closing_move hi hm
  listed := h.listed_move hi hm

theorem init : Cleanup ({} : State D).floor := by
  constructor <;> simp [State.floor]

end Cleanup

/-! ## Runs -/

/-- The operation `c` has in hand is not a member's send on a closed channel, and not a
`NewHandshake` with an owner whose `EndHandshakesFor` has run. -/
def State.cleanAt (s : State D) (c : ClientId) : Pc D → Bool
  | .member r (.send dst _ :: _) => !((s.room r).members.contains c && (s.conns dst).outClosed)
  | .newHandshake _ _ o => !(s.conns o).pc.phase.parting
  | _ => true

def State.clean (s : State D) : Act D → Bool
  | .run c _ _ => s.cleanAt c (s.conns c).pc
  | _ => true

theorem State.may_clean {s : State D} {a : Act D} (h : s.clean a = true) :
    (s.may a).Clean s.floor where
  send := by
    rintro c dst r ⟨⟨draw, allow, rfl⟩, hdst⟩ hph hshut hm
    have hpc : headPhase r [] = (s.conns c).pc.phase := hph.symm
    simp only [State.sends] at hdst
    simp only [State.clean] at h
    cases he : (s.conns c).pc <;> rw [he] at hdst h hpc <;> try simp [Pc.phase, headPhase] at hpc
    case member r' todo =>
      cases todo with
      | nil => simp [Pc.sends] at hdst
      | cons op k =>
        cases op <;> simp only [Pc.sends, RoomOp.sends, Option.some.injEq, reduceCtorEq] at hdst
        cases hdst
        cases hpc
        have hm' : c ∈ (s.room r).members := hm
        have hshut' : (s.conns dst).outClosed = true := hshut
        simp [State.cleanAt, hm', hshut'] at h
  pair := by
    intro o ho
    cases a <;> simp only [State.may, State.pairs, reduceCtorEq] at ho
    case run c draw allow =>
      simp only [State.clean] at h
      cases he : (s.conns c).pc <;> rw [he] at ho h <;> simp only [Pc.pairs, reduceCtorEq] at ho
      cases ho
      simpa [State.cleanAt, State.floor] using h

section
variable [Payload D] {s : State D}

/-- A goroutine that panicked runs no handler. -/
theorem ended_of_panicked {ok : State D → Act D → Prop} (hr : (relay cfg).Reach ok s) :
    ∀ c, (s.conns c).panicked = true → (s.conns c).pc.phase.ended = true :=
  hr.invariant (I := fun s => ∀ c, s.floor.panicked c = true → (s.floor.phase c).ended = true)
    (by simp [State.floor, relay])
    fun _ _ _ hr' h _ hstep => Cleanup.after_move h ((sound_of_reach hr').step_move hstep)

/-- **Nothing outlives its connection.** In every run of clean steps, a connection whose session has
exited is in no room, holds no claim and is a party of no handshake; and once all have exited, the
only rooms left are those the janitor or `Shutdown` has begun to close. -/
theorem nothing_outlives (hr : (relay (D := D) cfg).Reach (fun s a => s.clean a = true) s) :
    (∀ c, (s.conns c).pc = .exited → (∀ r, c ∉ (s.room r).members) ∧
      (∀ sid sc, s.sessions.lookup sid = some sc → sc.client ≠ c) ∧
      ∀ h hs, s.handshakes h = some hs → hs.joiner ≠ c ∧ hs.owner ≠ c) ∧
    ((∀ c ∈ s.drawn, (s.conns c).pc = .absent ∨ (s.conns c).pc = .exited) →
      (∀ r ∈ s.rooms, .reaped r ∈ s.log) ∧ ((∀ r, .reaped r ∉ s.log) → s.rooms = [])) := by
  have hi := (sound_of_reach hr).inv
  have hclaims := claims_of_reach hr
  have h : Cleanup s.floor := hr.invariant (I := fun s => Cleanup s.floor) Cleanup.init
    fun _ _ _ hr' h hok hstep =>
      have hs := sound_of_reach hr'
      h.move hs.inv (State.may_clean hok) (hs.step_move hstep)
  refine ⟨fun c hc => ?_, fun hall => ?_⟩
  · have hph : s.floor.phase c = .over := by simp [State.floor, hc, Pc.phase]
    refine ⟨fun r hm => ?_, fun sid sc hsc he => ?_, fun hd hs hh => ⟨fun he => ?_, fun he => ?_⟩⟩
    · have := (hi.mem r c hm).2 (h.alive r c hm)
      simp [hph, Phase.serves] at this
    · have := (hclaims.keyed sid sc hsc).2.2
      simp [he, hph, Phase.claiming] at this
    · have := (h.handshakes hd hs hh).1
      simp [he, hph, Phase.parting] at this
    · have := (h.handshakes hd hs hh).2
      simp [he, hph, Phase.parting] at this
  · have hphase : ∀ c, s.floor.phase c = .absent ∨ s.floor.phase c = .over := by
      intro c
      by_cases hc : c ∈ s.drawn
      · exact (hall c hc).imp (fun h => by simp [State.floor, h, Pc.phase])
          fun h => by simp [State.floor, h, Pc.phase]
      · exact .inl (hi.drawn c hc)
    have hreaped : ∀ r ∈ s.rooms, .reaped r ∈ s.log := by
      intro r hroom
      by_cases hcl : (s.room r).closed = true
      · obtain ⟨c, hw⟩ | hreaped := h.closing r hroom hcl
        · have := hphase c
          simp [hw] at this
        · exact hreaped
      · obtain hne | ⟨c, hop⟩ := h.occupied r hroom (Bool.eq_false_of_not_eq_true hcl)
        · obtain ⟨c, hm⟩ := List.exists_mem_of_ne_nil _ hne
          have hserves := (hi.mem r c hm).2 (h.alive r c hm)
          obtain hph | hph := hphase c <;> simp [hph, Phase.serves] at hserves
        · have := hphase c
          simp [hop] at this
    refine ⟨hreaped, fun hno => List.eq_nil_iff_forall_not_mem.mpr fun r hroom => ?_⟩
    exact hno r (hreaped r hroom)

end

/-- Client 2 redeems an invite and gives its handshake up; then client 1 leaves its room. -/
def sampleVisit : List (Act String) :=
  sampleOpen ++ sampleInvite ++ sampleRedeem ++ .frame 2 .leave :: ops 2 2 ++
    .pumpExit 2 :: ops 2 4 ++ .frame 1 .leave :: ops 1 2 ++ List.replicate 6 (.closing 100 1) ++
    ops 1 2 ++ .pumpExit 1 :: ops 1 4

theorem visited_some : ((relay sampleConfig).runFrom (fun s a => s.clean a = true) {}
    sampleVisit).isSome = true := by decide +kernel

theorem nothing_outlives_sample :
    let s := ((relay sampleConfig).runFrom (fun s a => s.clean a = true) {} sampleVisit).get
      visited_some
    s.rooms = [] ∧ (∀ r, 2 ∉ (s.room r).members) ∧
      (∀ sid sc, s.sessions.lookup sid = some sc → sc.client ≠ 2) ∧
      ∀ h hs, s.handshakes h = some hs → hs.joiner ≠ 2 ∧ hs.owner ≠ 2 := by
  obtain ⟨hexited, hall⟩ := nothing_outlives (Lib.Machine.reach_get visited_some)
  refine ⟨List.eq_nil_iff_forall_not_mem.mpr fun r hr => ?_, hexited 2 (by decide +kernel)⟩
  exact absurd ((hall (by decide +kernel)).1 r hr) (by revert r; decide +kernel)

/-- The owner has looked client 2 up for a handshake frame; client 2 gives up and its channel is
closed; the owner's send panics, and both sessions end. -/
def deadOwner : State String :=
  ((relay sampleConfig).run (sampleOpen ++ sampleInvite ++ sampleRedeem ++
    .frame 1 (.pake 300 "x") :: ops 1 1 ++ .frame 2 .leave :: ops 2 2 ++ ops 1 4 ++
    .pumpExit 2 :: ops 2 4)).get (by decide +kernel)

theorem dead_owner : (relay sampleConfig).Reach Lib.Machine.Any deadOwner ∧
    (∀ c ∈ deadOwner.started, (deadOwner.conns c).pc = .exited) ∧
    1 ∈ (deadOwner.room 100).members ∧ deadOwner.rooms = [100] :=
  ⟨Lib.Machine.reach_of_run (Option.some_get _).symm, by decide +kernel, by decide +kernel,
    by decide +kernel⟩

end E2EAnon.Relay
