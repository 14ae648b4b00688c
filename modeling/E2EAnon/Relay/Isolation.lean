import E2EAnon.Relay.Frames
import E2EAnon.Relay.Rooms

/-!
# Payloads stay in their room (`server.go:248-448`, `invites.go:65-124`, `room.go:153-195`)

A connection is bound to the room it created or redeemed a token for (`Bound`). Every member of a room
is bound to it, and so are the two parties of a handshake for it; whatever ids a frame names, its
payload reaches only clients bound to its sender's room.
-/

namespace E2EAnon.Relay

open Lib

variable {D : Type} {cfg : Config}

/-- `c` created `r`, or redeemed a token for it. -/
def Event.binds (c : ClientId) (r : RoomId) : Event → Prop
  | .created d r' => d = c ∧ r' = r
  | .redeemed d r' _ _ => d = c ∧ r' = r
  | _ => False

def Bound (log : List Event) (c : ClientId) (r : RoomId) : Prop := ∃ e ∈ log, e.binds c r

theorem Bound.mono {log log' : List Event} (h : ∀ e ∈ log, e ∈ log') {c : ClientId} {r : RoomId}
    (hb : Bound log c r) : Bound log' c r := by
  obtain ⟨e, he, hb⟩ := hb
  exact ⟨e, h e he, hb⟩

theorem bound_cons {log : List Event} {c : ClientId} {r : RoomId} {e : Event} :
    Bound (e :: log) c r ↔ e.binds c r ∨ Bound log c r := by
  simp [Bound]

/-- Before the room of the connection is known. -/
def Phase.unbound : Phase D → Bool
  | .absent | .hello | .creating | .redeeming => true
  | _ => false

structure Bindings (f : Floor D) : Prop where
  phase : ∀ c r, (f.phase c).room? = some r → Bound f.log c r
  member : ∀ r c, c ∈ (f.room r).members → Bound f.log c r
  unbound : ∀ c r, Bound f.log c r → (f.phase c).unbound = false
  unique : ∀ c r r', Bound f.log c r → Bound f.log c r' → r = r'

namespace Bindings

variable {may : May} {f f' : Floor D}

theorem phase_move (h : Bindings f) (hm : Move cfg may f f') :
    ∀ c r, (f'.phase c).room? = some r → Bound f'.log c r := by
  have phase := h.phase
  cases hm <;> first | exact phase | skip
  all_goals
    intro c r hc
    simp only [Floor.goto, Floor.setRoom, Floor.note, Floor.close, Function.update_apply,
      bound_cons, Event.binds] at hc ⊢
    grind -ring -linarith [Phase.room?]

theorem member_move (h : Bindings f) (hm : Move cfg may f f') :
    ∀ r c, c ∈ (f'.room r).members → Bound f'.log c r := by
  have member := h.member
  have phase := h.phase
  cases hm <;> first | exact member | skip
  all_goals
    intro r c hc
    simp only [Floor.goto, Floor.setRoom, Floor.note, Floor.close, Floor.addRoom, Floor.dropRoom,
      Floor.closeRoom, Function.update_apply, bound_cons,
      Event.binds] at hc ⊢
    grind -ring -linarith [Phase.room?]

theorem unbound_move (h : Bindings f) (hi : Inv cfg f) (hm : Move cfg may f f') :
    ∀ c r, Bound f'.log c r → (f'.phase c).unbound = false := by
  have unbound := h.unbound
  have drawn := hi.drawn
  cases hm <;> first | exact unbound | skip
  all_goals
    intro c r hc
    simp only [Floor.goto, Floor.setRoom, Floor.note, Floor.close, Function.update_apply,
      bound_cons, Event.binds] at hc ⊢
    grind -ring -linarith [Phase.unbound]

theorem unique_move (h : Bindings f) (hm : Move cfg may f f') :
    ∀ c r r', Bound f'.log c r → Bound f'.log c r' → r = r' := by
  have unique := h.unique
  have unbound := h.unbound
  cases hm <;> first | exact unique | skip
  all_goals
    intro c r r' hc hc'
    simp only [Floor.goto, Floor.setRoom, Floor.note, Floor.close, bound_cons, Event.binds] at hc hc' ⊢
    grind -ring -linarith [Phase.unbound]

theorem move (h : Bindings f) (hi : Inv cfg f) (hm : Move cfg may f f') : Bindings f' where
  phase := h.phase_move hm
  member := h.member_move hm
  unbound := h.unbound_move hi hm
  unique := h.unique_move hm

theorem init : Bindings ({} : State D).floor := by
  constructor <;> simp [State.floor, Pc.phase, Phase.room?, Bound]

end Bindings

/-! ## Handshakes -/

theorem Move.log_mono {may : May} {f f' : Floor D} (hm : Move cfg may f f') {e : Event}
    (he : e ∈ f.log) : e ∈ f'.log := by
  cases hm <;> first | exact he | simp [Floor.note, Floor.setRoom, Floor.goto, Floor.close, he]

theorem Move.drawn_mono {may : May} {f f' : Floor D} (hm : Move cfg may f f') {x : Handle}
    (hx : x ∈ f.drawn) : x ∈ f'.drawn := by
  cases hm <;> first | exact hx | simp [Floor.note, Floor.setRoom, Floor.goto, hx]

/-- A move that calls no `NewHandshake` makes no handshake. -/
theorem Move.handshakes {may : May} {f f' : Floor D} (hm : Move cfg may f f')
    (hno : ∀ o, ¬ may.pair o) {x : Handle} {hs : Handshake} (h : f'.handshakes x = some hs) :
    f.handshakes x = some hs := by
  cases hm <;> first | exact h | skip
  case newHandshake hmay => exact absurd hmay (hno _)
  case endHandshake y =>
    simp only [Function.update_apply] at h
    split at h
    · simp at h
    · exact h
  case endHandshakesFor => exact (Option.filter_eq_some_iff.mp h).1

variable [Payload D] {s s' : State D} {l : List (Machine.Transition (State D) (Act D))}

theorem step_handshakes (hs : Sound cfg s) {a : Act D} (h : step cfg s a = some s') :
    (∃ c draw allow tok r o, a = .run c draw allow ∧ (s.conns c).pc = .newHandshake tok r o ∧
      draw ∉ s.drawn ∧ draw ∈ s'.drawn ∧
      s'.handshakes = Function.update s.handshakes draw (some ⟨r, c, o⟩)) ∨
    ∀ x y, s'.handshakes x = some y → s.handshakes x = some y := by
  by_cases hp : ∃ o, s.pairs a = some o
  · obtain ⟨o, ho⟩ := hp
    cases a <;> simp only [State.pairs, reduceCtorEq] at ho
    case run c draw allow =>
      cases hpc : (s.conns c).pc <;> rw [hpc] at ho <;> simp only [Pc.pairs, reduceCtorEq] at ho
      case newHandshake tok r o' =>
        simp only [step, hpc, runPc, State.drawId] at h
        split at h
        · simp at h
        · rename_i hd
          cases h
          exact .inl ⟨c, draw, allow, tok, r, o', rfl, hpc, hd,
            by simp [State.newHandshake, State.goto, State.setConn], rfl⟩
  · exact .inr fun x y => (hs.step_move h).handshakes fun o ho => hp ⟨o, ho⟩

theorem bindings_of_reach {ok : State D → Act D → Prop} (hr : (relay cfg).Reach ok s) :
    Bindings s.floor :=
  hr.invariant (I := fun s => Bindings s.floor) Bindings.init fun _ _ _ hr' h _ hstep =>
    h.move (sound_of_reach hr').inv ((sound_of_reach hr').step_move hstep)

/-- What holds of all handshakes of a run. -/
structure Parties (l : List (Machine.Transition (State D) (Act D))) (s : State D) : Prop where
  drawn : ∀ x hs, Made l s x hs → x ∈ s.drawn
  bound : ∀ x hs, Made l s x hs → Bound s.log hs.joiner hs.room ∧ Bound s.log hs.owner hs.room
  unique : ∀ x hs hs', Made l s x hs → Made l s x hs' → hs = hs'
  pairing : ∀ c tok r o, (s.conns c).pc = .newHandshake tok r o → Bound s.log o r

theorem made_step (hs : Sound cfg s) {a : Act D} (h : step cfg s a = some s') {x : Handle}
    {y : Handshake} (hm : Made (l ++ [⟨s, a, s'⟩]) s' x y) : Made l s x y ∨
      ∃ c draw allow tok r o, a = .run c draw allow ∧ (s.conns c).pc = .newHandshake tok r o ∧
        x ∉ s.drawn ∧ x ∈ s'.drawn ∧ y = ⟨r, c, o⟩ := by
  obtain hm | ⟨t, ht, hm⟩ := hm
  · obtain ⟨c, draw, allow, tok, r, o, ha, hpc, hd, hd', he⟩ | hold := step_handshakes hs h
    · rw [he, Function.update_apply] at hm
      split at hm
      · rename_i hx
        subst hx
        exact .inr ⟨c, x, allow, tok, r, o, ha, hpc, hd, hd', (Option.some.inj hm).symm⟩
      · exact .inl (.inl hm)
    · exact .inl (.inl (hold x y hm))
  · obtain ht | ht := List.mem_append.mp ht
    · exact .inl (.inr ⟨t, ht, hm⟩)
    · obtain rfl := List.mem_singleton.mp ht
      exact .inl (.inl hm)

theorem pairing_step (hb : Bindings s.floor) {a : Act D} (h : step cfg s a = some s')
    (hlog : ∀ e ∈ s.log, e ∈ s'.log)
    (ih : ∀ c tok r o, (s.conns c).pc = .newHandshake tok r o → Bound s.log o r) :
    ∀ c tok r o, (s'.conns c).pc = .newHandshake tok r o → Bound s'.log o r := by
  intro c tok r o hpc
  generalize hpc' : (s'.conns c).pc = pc at hpc
  cases hpc' ▸ Sound.step_pc h c with
  | same _ => exact (ih c tok r o hpc).mono hlog
  | connected hello ha hd => cases hello <;> simp [helloPc] at hpc
  | read m _ ha h =>
    have := readFrame_afterRead h
    simp [hpc, Pc.afterRead] at this
  | readErr _ ha h =>
    have := readFails_afterRead h
    simp [hpc, Pc.afterRead] at this
  | ran draw allow _ ha h =>
    rw [hpc] at h
    generalize (s.conns c).pc = pc₀ at h
    cases h with
    | ownerClient _ _ _ ho =>
      have ho' : s.floor.ownerClient r = some o := ho
      have hmem : o ∈ (s.room r).members := (Floor.ownerClient_eq_some.mp ho').2.2
      exact (hb.member r o hmem).mono hlog

/-- **The parties of a handshake are bound to its room**, and an id stands for one handshake. -/
theorem parties_of_trace (hl : (relay cfg).Trace l s) : Parties l s := by
  induction hl with
  | nil => constructor <;> simp [Made, relay]
  | @snoc l s s' a hl hstep ih =>
    have hs := sound_of_reach hl.reach
    have hb := bindings_of_reach hl.reach
    have hlog : ∀ e ∈ s.log, e ∈ s'.log := fun e he => (hs.step_move hstep).log_mono he
    have old : ∀ x y, Made l s x y → x ∈ s'.drawn := fun x y hm =>
      (hs.step_move hstep).drawn_mono (ih.drawn x y hm)
    refine ⟨fun x y hm => ?_, fun x y hm => ?_, fun x y y' hm hm' => ?_,
      pairing_step hb hstep hlog ih.pairing⟩
    · obtain hm | ⟨_, _, _, _, _, _, _, _, _, hd, _⟩ := made_step hs hstep hm
      · exact old x y hm
      · exact hd
    · obtain hm | ⟨c, _, _, tok, r, o, _, hpc, _, _, rfl⟩ := made_step hs hstep hm
      · exact (ih.bound x y hm).imp (·.mono hlog) (·.mono hlog)
      · have hc : Bound s.log c r :=
          hb.phase c r (by simp [State.floor, hpc, Pc.phase, Phase.room?])
        exact ⟨hc.mono hlog, (ih.pairing c tok r o hpc).mono hlog⟩
    · -- a new id has been no handshake before
      obtain hm | ⟨c, _, _, tok, r, o, ha, hpc, hd, _, rfl⟩ := made_step hs hstep hm
      · obtain hm' | ⟨_, _, _, _, _, _, _, _, hd', _, _⟩ := made_step hs hstep hm'
        · exact ih.unique x y y' hm hm'
        · exact absurd (ih.drawn x y hm) hd'
      · obtain hm' | ⟨c', _, _, tok', r', o', ha', hpc', _, _, rfl⟩ := made_step hs hstep hm'
        · exact absurd (ih.drawn x y' hm') hd
        · cases ha.symm.trans ha'
          cases hpc.symm.trans hpc'
          rfl

/-- A party of a handshake. -/
theorem bound_of_peer {hs : Handshake} {log : List Event} {c p : ClientId}
    (h : Bound log hs.joiner hs.room ∧ Bound log hs.owner hs.room) (hp : hs.peer c = some p) :
    Bound log c hs.room ∧ Bound log p hs.room := by
  unfold Handshake.peer at hp
  split at hp
  · rename_i hj
    cases hp
    exact ⟨hj ▸ h.1, h.2⟩
  · split at hp
    · rename_i ho
      cases hp
      exact ⟨ho ▸ h.2, h.1⟩
    · simp at hp

/-- **Room isolation.** Whenever a frame with a payload is queued to `d`, the payload came in a frame
of a client bound to the room `d` is bound to; and a handshake frame is queued to `d` only by the
other party of the one handshake its id has ever stood for. -/
theorem room_isolation (hl : (relay cfg).Trace l s) {a : Act D}
    (hstep : (relay cfg).step s a = some s') {d : ClientId} {m : ServerMsg D}
    (hq : (s'.conns d).out = (s.conns d).out ++ [m]) :
    (∀ x ∈ payloads m, ∃ c draw allow r, a = .run c draw allow ∧
      (∃ t ∈ l, ∃ f, t.label = .frame c f ∧ x ∈ clientPayloads f) ∧
      (∀ r', Bound s.log c r' ↔ r' = r) ∧ ∀ r', Bound s.log d r' ↔ r' = r) ∧
    (handshakeType m.type = true → ∃ c draw allow x hs, a = .run c draw allow ∧
      m.handshake = some x ∧ hs.peer c = some d ∧ ∀ hs', Made l s x hs' ↔ hs' = hs) := by
  have hs := sound_of_reach hl.reach
  have hfit := fit_of_trace hl
  have hb := bindings_of_reach hl.reach
  have hpar := parties_of_trace hl
  have only : ∀ {c r}, Bound s.log c r → ∀ r', Bound s.log c r' ↔ r' = r :=
    fun h r' => ⟨fun h' => hb.unique _ _ _ h' h, fun h' => h' ▸ h⟩
  -- a frame `c` sends as a member of `r` to another one
  have within : ∀ {c draw allow r op k x}, a = .run c draw allow →
      (s.conns c).pc = .member r (op :: k) → d ∈ (s.room r).members → x ∈ op.payloads →
      ∃ c draw allow r, a = .run c draw allow ∧
        (∃ t ∈ l, ∃ f, t.label = .frame c f ∧ x ∈ clientPayloads f) ∧
        (∀ r', Bound s.log c r' ↔ r' = r) ∧ ∀ r', Bound s.log d r' ↔ r' = r := by
    intro c draw allow r op k x ha hpc hd hx
    have hc : Bound s.log c r := by
      refine hb.phase c r ?_
      cases op <;> simp [State.floor, hpc, Pc.phase, headPhase, Phase.room?]
    exact ⟨c, draw, allow, r, ha, sent_of_trace hl (by simp [hpc, Pc.payloads, hx]), only hc,
      only (hb.member r d hd)⟩
  obtain ⟨hp, -⟩ := hs.posts_of_queued hstep hq
  obtain ⟨b, hbr, hd, rfl⟩ | ⟨hdir, -⟩ := posts_cases hp
  · obtain ⟨c, draw, allow, ha, hsite⟩ := broadcast_cases hbr
    cases hsite with
    | presence | kick | leave =>
      simp [State.presence, State.presenceMsg, payloads, handshakeType]
    | relay r body k hpc hopen hm =>
      refine ⟨fun x hx => within ha hpc (List.mem_of_mem_filter hd) hx, ?_⟩
      simp [State.others, State.chatMsg, handshakeType]
    | roster r y k hpc hopen =>
      refine ⟨fun x hx => within ha hpc (List.mem_of_mem_filter hd) hx, ?_⟩
      simp [State.others, handshakeType]
    | file r m k hpc hopen =>
      refine ⟨fun x hx => within ha hpc (List.mem_of_mem_filter hd) hx, fun ht => ?_⟩
      have hft := (fit_of_broadcast (hfit c) hpc).1
      simp only [State.others] at ht
      cases hty : m.type <;> simp [hty, handshakeType, fileType] at ht hft
  · cases direct_cases hfit hdir with
    | own _ hp ht =>
      refine ⟨by simp [hp], fun ht' => ?_⟩
      cases hty : m.type <;> simp [hty, handshakeType, relayType] at ht ht'
    | redeemOk | inviteRedeemed => simp [payloads, handshakeType]
    | rekey c draw allow r y k ha hpc hopen hm =>
      refine ⟨fun x hx => within ha hpc hm ?_, by simp [handshakeType]⟩
      simpa [payloads, RoomOp.payloads, OwnerReq.payloads] using hx
    | peer c draw allow type y z hs' ha hh hpeer ht hz =>
      obtain ⟨hc, hd⟩ := bound_of_peer (hpar.bound y hs' hh) hpeer
      refine ⟨fun x hx => ?_, fun _ => ⟨c, draw, allow, y, hs', ha, rfl, hpeer, fun hs'' => ?_⟩⟩
      · obtain rfl : x = z := by simpa [payloads] using hx
        exact ⟨c, draw, allow, hs'.room, ha, sent_of_trace hl hz, only hc, only hd⟩
      · exact ⟨fun h => hpar.unique y _ _ h hh, fun h => h ▸ hh⟩

/-- Client 2 has sent a handshake frame; its relay to client 1 is next. -/
def relaying : List (Act String) :=
  sampleOpen ++ sampleInvite ++ sampleRedeem ++ .frame 2 (.pake 300 "x") :: ops 2 1

theorem relaying_some : ((relay sampleConfig).stepsFrom {} relaying).isSome = true := by
  decide +kernel

theorem relaying_step : ((relay sampleConfig).step
    (((relay sampleConfig).stepsFrom {} relaying).get relaying_some).2 (.run 2 0 true)).isSome =
      true := by
  decide +kernel

theorem room_isolation_sample : ∃ c r,
    (∀ r', Bound (((relay sampleConfig).stepsFrom {} relaying).get relaying_some).2.log c r' ↔
      r' = r) ∧
    ∀ r', Bound (((relay sampleConfig).stepsFrom {} relaying).get relaying_some).2.log 1 r' ↔
      r' = r := by
  obtain ⟨c, -, -, r, -, -, hc, hd⟩ := (room_isolation (Machine.trace_get relaying_some)
    (Option.some_get relaying_step).symm (d := 1)
    (m := { type := .pake, handshake := some 300, data := some "x" }) (by decide +kernel)).1 "x"
    (by decide)
  exact ⟨c, r, hc, hd⟩

end E2EAnon.Relay
