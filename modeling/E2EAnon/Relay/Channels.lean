import E2EAnon.Relay.Admission

/-!
# Sends on closed channels (`client.go:66-88`, `server.go:220-283`, `384-448`)

`Client.Send` takes no lock. Its callers hold a client they got earlier: `relayHandshake` and
`handshakeLoop` from `GetHandshake`, `runJoiner` from `OwnerClient`, and every handler its own
client. Nothing ends a handshake when one of its parties leaves its room: that happens in the
deferred calls of `session`, after the write pump has drained. So the other party can still send to
a client whose channel `Leave`, `RemoveMember` or `Close` has closed, and panics
(`owner_left_then_pake`).

`Served` describes the clients whose channel nobody has closed. `served_iff_open` says so in every
run without a panic; `no_send_on_closed_channel` is about the runs in which each unlocked send
addresses a served client.
-/

namespace E2EAnon.Relay

variable {D : Type} {cfg : Config}

/-- `c` has created a room. -/
def creates (c : ClientId) : List Event → Bool
  | [] => false
  | .created d _ :: log => d = c || creates c log
  | _ :: log => creates c log

/-- `c` has been added to a room. -/
def adds (c : ClientId) : List Event → Bool
  | [] => false
  | .added d _ :: log => d = c || adds c log
  | _ :: log => adds c log

/-- `c` created a room and has never been in one: its `Add` has not run, or it failed, which
`runOwner` ignores. -/
def Floor.Stray (f : Floor D) (c : ClientId) : Prop :=
  creates c f.log = true ∧ adds c f.log = false

/-- `c` is in `r`, or waits for the `Close` of `r` to reach it. -/
def Floor.InRoom (f : Floor D) (r : RoomId) (c : ClientId) : Prop :=
  c ∈ (f.room r).members ∨ c ∈ (f.room r).closing.pending

/-- `c` is on its way into a room, in one, or waits for `Close` to reach it; or it is a stray. -/
def Floor.Served (f : Floor D) (c : ClientId) : Prop :=
  (f.phase c).joining = true ∨ (∃ r ∈ f.drawn, f.InRoom r c) ∨ f.Stray c

instance (f : Floor D) (r : RoomId) (c : ClientId) : Decidable (f.InRoom r c) :=
  inferInstanceAs (Decidable (_ ∨ _))

instance (f : Floor D) (c : ClientId) : Decidable (f.Stray c) :=
  inferInstanceAs (Decidable (_ ∧ _))

instance (f : Floor D) (c : ClientId) : Decidable (f.Served c) :=
  inferInstanceAs (Decidable (_ ∨ _ ∨ _))

/-- A room somebody is in has been drawn. -/
theorem Inv.drawn_of_inRoom {f : Floor D} (hi : Inv cfg f) {r : RoomId} {c : ClientId}
    (h : f.InRoom r c) : r ∈ f.drawn := by
  by_contra hr
  obtain ⟨hm, -, hcl⟩ := hi.room_drawn r hr
  simp [Floor.InRoom, hm, hcl, Closing.pending] at h

/-- Where a client that has created a room never is. -/
def Phase.roomless : Phase D → Bool
  | .absent | .hello | .turned | .creating | .redeeming | .joiner _ => true
  | _ => false

structure Channels (f : Floor D) : Prop where
  member : ∀ r c, c ∈ (f.room r).members → adds c f.log = true
  pending : ∀ r c, c ∈ (f.room r).closing.pending → adds c f.log = true
  added : ∀ c, adds c f.log = true → (f.phase c).joining = false
  creator : ∀ c, creates c f.log = true → (f.phase c).roomless = false
  opening : ∀ c r, f.phase c = .opening r → creates c f.log = true
  stray : ∀ c, f.Stray c → f.shut c = false
  served : ∀ c, f.panicked c = false → f.shut c = false → f.Served c

namespace Channels

variable {may : May} {f f' : Floor D}

theorem member_move (h : Channels f) (hm : Move cfg may f f') :
    ∀ r c, c ∈ (f'.room r).members → adds c f'.log = true := by
  have member := h.member
  cases hm <;> first | exact member | skip
  all_goals
    intro r c hc
    simp only [Floor.goto, Floor.setRoom, Floor.note, Floor.close, Floor.addRoom, Floor.dropRoom,
      Floor.closeRoom, Function.update_apply, adds] at hc ⊢
    grind -ring -linarith

theorem pending_move (h : Channels f) (hm : Move cfg may f f') :
    ∀ r c, c ∈ (f'.room r).closing.pending → adds c f'.log = true := by
  have member := h.member
  have pending := h.pending
  cases hm <;> first | exact pending | skip
  all_goals
    intro r c hc
    have hp := pending r c
    simp only [Floor.goto, Floor.setRoom, Floor.note, Floor.close, Floor.addRoom, Floor.dropRoom,
      Floor.closeRoom, Function.update_apply, adds] at hc ⊢
    grind -ring -linarith [Closing.pending]

theorem added_move (h : Channels f) (hi : Inv cfg f) (hm : Move cfg may f f') :
    ∀ c, adds c f'.log = true → (f'.phase c).joining = false := by
  have added := h.added
  have drawn := hi.drawn
  cases hm <;> first | exact added | skip
  all_goals
    intro c hc
    simp only [Floor.goto, Floor.setRoom, Floor.note, Floor.close, Function.update_apply,
      adds] at hc ⊢
    grind -ring -linarith [Phase.joining]

theorem creator_move (h : Channels f) (hi : Inv cfg f) (hm : Move cfg may f f') :
    ∀ c, creates c f'.log = true → (f'.phase c).roomless = false := by
  have creator := h.creator
  have drawn := hi.drawn
  cases hm <;> first | exact creator | skip
  all_goals
    intro c hc
    simp only [Floor.goto, Floor.setRoom, Floor.note, Floor.close, Function.update_apply,
      creates] at hc ⊢
    grind -ring -linarith [Phase.roomless]

theorem opening_move (h : Channels f) (hm : Move cfg may f f') :
    ∀ c r, f'.phase c = .opening r → creates c f'.log = true := by
  have opening := h.opening
  cases hm <;> first | exact opening | skip
  all_goals
    intro c r hc
    simp only [Floor.goto, Floor.setRoom, Floor.note, Floor.close, Function.update_apply,
      creates] at hc ⊢
    grind -ring -linarith

theorem stray_move (h : Channels f) (hi : Inv cfg f) (hm : Move cfg may f f') :
    ∀ c, f'.Stray c → f'.shut c = false := by
  have stray := h.stray
  have member := h.member
  have pending := h.pending
  have creator := h.creator
  have joining_open := hi.joining_open
  cases hm <;> first | exact stray | skip
  all_goals
    intro c hc
    simp only [Floor.Stray, Floor.goto, Floor.setRoom, Floor.note, Floor.close,
      Function.update_apply, adds, creates] at stray hc ⊢
    grind -ring -linarith [Phase.joining, Phase.roomless, Closing.pending]

theorem inRoom_move (hi : Inv cfg f) (hm : Move cfg may f f') {r : RoomId}
    {c : ClientId} (hc : f.InRoom r c) : f'.InRoom r c ∨ f'.shut c = true := by
  have open_idle := hi.open_idle r
  have room_drawn := hi.room_drawn r
  cases hm <;> first | exact .inl hc | skip
  all_goals
    simp only [Floor.InRoom, Floor.goto, Floor.setRoom, Floor.note, Floor.close, Floor.addRoom,
      Floor.dropRoom, Floor.closeRoom, Function.update_apply] at hc ⊢
    grind -ring -linarith [Closing.pending]

theorem joining_move (h : Channels f) (hm : Move cfg may f f') {c : ClientId}
    (hc : (f.phase c).joining = true) : (f'.phase c).joining = true ∨ (∃ r, f'.InRoom r c) ∨
      f'.Stray c ∨ f'.shut c = true ∨ f'.panicked c = true := by
  have added := h.added c
  have opening := h.opening c
  cases hm <;> first | exact .inl hc | skip
  case add d r t hd hopen hcap =>
    by_cases hdc : c = d
    · subst hdc
      refine .inr (.inl ⟨r, .inl ?_⟩)
      simp only [Floor.note, Floor.setRoom, Function.update_self, Floor.addRoom]
      split <;> simp_all
    · exact .inl (by simpa [Floor.note, Floor.setRoom, Floor.goto, hdc] using hc)
  all_goals
    simp only [Floor.Stray, Floor.goto, Floor.setRoom, Floor.note, Floor.close,
      Function.update_apply, adds, creates]
    grind -ring -linarith [Phase.joining]

theorem stray_kept (hm : Move cfg may f f') {c : ClientId} (hc : f.Stray c) :
    f'.Stray c ∨ ∃ r, f'.InRoom r c := by
  cases hm <;> first | exact .inl hc | skip
  case add d r t hd hopen hcap =>
    by_cases hdc : c = d
    · subst hdc
      refine .inr ⟨r, .inl ?_⟩
      simp only [Floor.note, Floor.setRoom, Function.update_self, Floor.addRoom]
      split <;> simp_all
    · refine .inl ⟨hc.1, ?_⟩
      have hdc' : ¬ d = c := fun he => hdc he.symm
      simp [Floor.note, Floor.setRoom, Floor.goto, adds, hdc', hc.2]
  all_goals
    refine .inl ⟨?_, ?_⟩ <;>
      simp [Floor.note, Floor.setRoom, Floor.goto, adds, creates, hc.1, hc.2]

/-- Only a new connection opens a channel or clears a panic. -/
theorem reset_move (hm : Move cfg may f f') {c : ClientId} :
    (f'.panicked c = false → f.panicked c = false ∨ (f'.phase c).joining = true) ∧
      (f'.shut c = false → f.shut c = false ∨ (f'.phase c).joining = true) := by
  cases hm <;> first | exact ⟨.inl, .inl⟩ | skip
  all_goals
    simp only [Floor.goto, Floor.setRoom, Floor.note, Floor.close, Function.update_apply]
    grind -ring -linarith [Phase.joining]

theorem served_move (h : Channels f) (hi : Inv cfg f) (hi' : Inv cfg f') (hm : Move cfg may f f') :
    ∀ c, f'.panicked c = false → f'.shut c = false → f'.Served c := by
  intro c hp hs
  have hold : f.Served c ∨ (f'.phase c).joining = true := by
    obtain hp' | hj := (reset_move hm).1 hp
    · obtain hs' | hj := (reset_move hm).2 hs
      · exact .inl (h.served c hp' hs')
      · exact .inr hj
    · exact .inr hj
  have room : ∀ r, f'.InRoom r c → f'.Served c :=
    fun r hr => .inr (.inl ⟨r, hi'.drawn_of_inRoom hr, hr⟩)
  obtain (hj | ⟨r, -, hr⟩ | hstray) | hj := hold
  · obtain hj | ⟨r, hr⟩ | hst | hsh | hpa := h.joining_move hm hj
    · exact .inl hj
    · exact room r hr
    · exact .inr (.inr hst)
    · simp [hs] at hsh
    · simp [hp] at hpa
  · obtain hr | hsh := inRoom_move hi hm hr
    · exact room r hr
    · simp [hs] at hsh
  · obtain hst | ⟨r, hr⟩ := stray_kept hm hstray
    · exact .inr (.inr hst)
    · exact room r hr
  · exact .inl hj

theorem move (h : Channels f) (hi : Inv cfg f) (hm : Move cfg may f f') : Channels f' where
  member := h.member_move hm
  pending := h.pending_move hm
  added := h.added_move hi hm
  creator := h.creator_move hi hm
  opening := h.opening_move hm
  stray := h.stray_move hi hm
  served := h.served_move hi (hi.move hm) hm

theorem init : Channels ({} : State D).floor := by
  constructor <;> simp [State.floor, Pc.phase, Closing.pending, Floor.Stray, creates, adds,
    Floor.Served, Phase.joining]

end Channels

/-- A served client's channel is open. -/
theorem Floor.Served.isOpen {f : Floor D} {c : ClientId} (h : f.Served c) (hi : Inv cfg f)
    (hc : Channels f) : f.shut c = false := by
  obtain hj | ⟨r, -, hm | hp⟩ | hst := h
  · exact hi.joining_open c hj
  · exact hi.mem_open r c hm
  · exact (hi.pend r c hp).1
  · exact hc.stray c hst

/-- A move crashes only in an unlocked send on a closed channel. -/
theorem Move.crash {may : May} {f f' : Floor D} (hm : Move cfg may f f') {e : Event}
    (he : e ∈ f'.log) (hcr : e.crash = true) :
    e ∈ f.log ∨ ∃ c dst, may.send c dst ∧ f.shut dst = true := by
  cases hm <;> first | exact .inl he | skip
  case panic c dst hc hd hmay => exact .inr ⟨c, dst, hmay, hd⟩
  all_goals
    simp only [Floor.note, List.mem_cons] at he
    obtain rfl | he := he
    · simp [Event.crash] at hcr
    · exact .inl he

variable [Payload D] {ok : State D → Act D → Prop} {s : State D}

theorem channels_of_reach (hr : (relay (D := D) cfg).Reach ok s) : Channels s.floor :=
  hr.invariant (I := fun s => Channels s.floor) Channels.init fun _ _ _ hr' h _ hstep =>
    h.move (sound_of_reach hr').inv ((sound_of_reach hr').step_move hstep)

/-- Without a panic, the open channels are those of the served clients. -/
theorem served_iff_open (hr : (relay (D := D) cfg).Reach ok s) (hs : s.Calm) (c : ClientId) :
    s.floor.Served c ↔ (s.conns c).outClosed = false :=
  ⟨fun h => h.isOpen (sound_of_reach hr).inv (channels_of_reach hr),
    (channels_of_reach hr).served c (not_panicked_of_calm hr hs c)⟩

/-- An unlocked send on a closed channel panics. -/
theorem send_crashes {s' : State D} {a : Act D} {dst : ClientId} (hdst : s.sends a = some dst)
    (hclosed : (s.conns dst).outClosed = true) (hstep : step cfg s a = some s') : ¬ s'.Calm := by
  have crash : ∀ {c : ClientId} {m : ServerMsg D} {pc : Pc D}, ¬ (s.clientSend c dst m pc).Calm := by
    intro c m pc hcalm
    have := hcalm (.sendClosed dst) (by
      simp [State.clientSend, hclosed, State.panic, State.note, State.setConn])
    simp [Event.crash] at this
  cases a <;> simp only [State.sends, reduceCtorEq] at hdst
  case run c draw allow =>
    simp only [step] at hstep
    cases hpc : (s.conns c).pc <;> rw [hpc] at hstep hdst <;>
      simp only [Pc.sends, Option.some.injEq, reduceCtorEq] at hdst
    case sendRedeemOk | sendInviteRedeemed | hsSend | hsFull | fail =>
      subst hdst
      cases hstep
      exact crash
    case member r todo =>
      cases todo with
      | nil => simp at hdst
      | cons op k =>
        cases op <;> simp only [RoomOp.sends, Option.some.injEq, reduceCtorEq] at hdst
        subst hdst
        cases hstep
        exact crash

theorem calm_step (hr : (relay (D := D) cfg).Reach ok s) (hs : s.Calm) {a : Act D} {s' : State D}
    (hok : ∀ dst ∈ s.sends a, s.floor.Served dst) (hstep : step cfg s a = some s') : s'.Calm := by
  intro e he
  have hsound := sound_of_reach hr
  by_contra hcr
  obtain hold | ⟨c, dst, ⟨-, hdst⟩, hshut⟩ :=
    (hsound.step_move hstep).crash he (Bool.eq_true_of_not_eq_false hcr)
  · exact hcr (hs e hold)
  · have hopen := (hok dst hdst).isOpen hsound.inv (channels_of_reach hr)
    simp [hopen] at hshut

/-- **No send on a closed channel**, and no second close, in any run in which each unlocked send
addresses a served client; and the first unlocked send to another client does panic. -/
theorem no_send_on_closed_channel
    (hr : (relay (D := D) cfg).Reach (fun s a => ∀ dst ∈ s.sends a, s.floor.Served dst) s) :
    s.Calm ∧ ∀ a s', (relay cfg).step s a = some s' →
      (s'.Calm ↔ ∀ dst ∈ s.sends a, s.floor.Served dst) := by
  have hcalm : s.Calm := hr.invariant (I := State.Calm) (by simp [State.Calm, relay])
    fun _ _ _ hr' hs hok hstep => calm_step hr' hs hok hstep
  refine ⟨hcalm, fun a s' hstep => ⟨fun hs' dst hdst => ?_, fun hok => calm_step hr hcalm hok hstep⟩⟩
  rw [served_iff_open hr hcalm]
  by_contra hclosed
  exact send_crashes hdst (Bool.eq_true_of_not_eq_false hclosed) hstep hs'

theorem greeted_some : ((relay sampleConfig).runFrom
    (fun s a => ∀ dst ∈ s.sends a, s.floor.Served dst) {}
    (sampleOpen ++ sampleInvite ++ sampleRedeem)).isSome = true := by decide +kernel

theorem no_send_on_closed_channel_sample : (((relay sampleConfig).runFrom
    (fun s a => ∀ dst ∈ s.sends a, s.floor.Served dst) {}
    (sampleOpen ++ sampleInvite ++ sampleRedeem)).get greeted_some).Calm :=
  (no_send_on_closed_channel (Lib.Machine.reach_get greeted_some)).1

/-- The owner leaves while client 2 is in its handshake; the room is torn down; client 2 sends its
next handshake frame, which goes to the owner's closed channel. -/
def ownerLeft : State String :=
  ((relay sampleConfig).run (sampleOpen ++ sampleInvite ++ sampleRedeem ++
    .frame 1 .leave :: ops 1 2 ++ List.replicate 6 (.closing 100 1) ++
    .frame 2 (.pake 300 "x") :: ops 2 2)).get (by decide +kernel)

theorem owner_left_then_pake :
    (relay sampleConfig).Reach Lib.Machine.Any ownerLeft ∧ .sendClosed 1 ∈ ownerLeft.log :=
  ⟨Lib.Machine.reach_of_run (Option.some_get _).symm, by decide +kernel⟩

end E2EAnon.Relay
