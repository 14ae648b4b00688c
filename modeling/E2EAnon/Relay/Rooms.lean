import E2EAnon.Relay.Outbox

/-!
# What a step does to a room (`room.go`)

`RoomChange` lists, for each way a room can change, the goroutine that changes it and where that
goroutine is. `rooms_sound` collects what holds of every room at every time.
-/

namespace E2EAnon.Relay

variable {D : Type} {cfg : Config}

open Floor in
/-- Room `r` after a step with label `a`. -/
inductive RoomChange (cfg : Config) (s : State D) (a : Act D) (r : RoomId) : Room → Prop
  | same : RoomChange cfg s a r (s.room r)
  | touched (t : Int) : RoomChange cfg s a r { s.room r with lastActivity := t }
  | created (c : ClientId) (allow : Bool) (t : Int) (ha : a = .run c r allow)
      (hpc : (s.conns c).pc = .createRoom) (hr : r ∉ s.drawn) :
      RoomChange cfg s a r { lastActivity := t }
  | added (c : ClientId) (draw : Handle) (allow : Bool) (t : Int) (ha : a = .run c draw allow)
      (hpc : (s.conns c).pc = .addOwner r ∨ ∃ h, (s.conns c).pc = .hsEnter r h)
      (hopen : (s.room r).closed = false) (hcap : (s.room r).members.length < cfg.maxRoomSize) :
      RoomChange cfg s a r (addRoom (s.room r) c t)
  | transferred (c : ClientId) (draw : Handle) (allow : Bool) (target : ClientId)
      (k : List (RoomOp D)) (t : Int) (ha : a = .run c draw allow)
      (hpc : (s.conns c).pc = .member r (.owned (.transfer target) :: k))
      (hopen : (s.room r).closed = false) (hm : target ∈ (s.room r).members) :
      RoomChange cfg s a r { s.room r with ownerID := some target, lastActivity := t }
  | kicked (c : ClientId) (draw : Handle) (allow : Bool) (v : ClientId) (k : List (RoomOp D))
      (t : Int) (ha : a = .run c draw allow)
      (hpc : (s.conns c).pc = .member r (.owned (.kick v) :: k))
      (hopen : (s.room r).closed = false) (hm : v ∈ (s.room r).members)
      (hv : (s.room r).ownerID ≠ some v) :
      RoomChange cfg s a r (dropRoom (s.room r) v t)
  | left (c : ClientId) (draw : Handle) (allow : Bool) (t : Int) (ha : a = .run c draw allow)
      (hpc : (s.conns c).pc = .leave r) (hopen : (s.room r).closed = false)
      (hm : c ∈ (s.room r).members) (ho : (s.room r).ownerID ≠ some c) :
      RoomChange cfg s a r (dropRoom (s.room r) c t)
  | destroyed (c : ClientId) (draw : Handle) (allow : Bool) (reason : Option Reason)
      (ha : a = .run c draw allow) (hpc : (s.conns c).pc = .leaveClose r reason)
      (hopen : (s.room r).closed = false) :
      RoomChange cfg s a r (closeRoom (s.room r) reason)
  | reaped (pick : RoomId) (reason : Option Reason) (ha : a = .janitor pick ∨ a = .shutdown pick)
      (hopen : (s.room r).closed = false) :
      RoomChange cfg s a r (closeRoom (s.room r) reason)
  | closing (pick : ClientId) (k : Closing) (ha : a = .closing r pick)
      (hclosed : (s.room r).closed = true) :
      RoomChange cfg s a r { s.room r with closing := k }

namespace Sound

variable {s s' : State D} {c : ClientId} {r : RoomId} {k : List (RoomOp D)}
  {draw : Handle} {allow : Bool}

theorem room_same {a : Act D} (h : s'.room = s.room) (r : RoomId) :
    RoomChange cfg s a r (s'.room r) := by
  rw [h]
  exact .same

/-- A section that writes one room. -/
theorem room_update {a : Act D} {rm : Room} (h : s'.room = Function.update s.room r rm)
    (hc : RoomChange cfg s a r rm) (r' : RoomId) : RoomChange cfg s a r' (s'.room r') := by
  rw [h]
  by_cases hr : r' = r
  · subst hr
    simpa using hc
  · simpa [hr] using RoomChange.same

theorem runOwned_room [Payload D] (hs : Sound cfg s) {q : OwnerReq D}
    (hpc : (s.conns c).pc = .member r (.owned q :: k)) (h : runOwned cfg s c draw r k q = some s')
    (r' : RoomId) : RoomChange cfg s (.run c draw allow) r' (s'.room r') := by
  cases q with
  | invite =>
    simp only [runOwned, State.drawId] at h
    split at h
    · simp at h
    · cases h
      exact room_same rfl r'
  | rekey t d =>
    cases h
    refine room_same ?_ r'
    exact congrArg Floor.room (State.floor_sendTo t hs.open_of_mem _)
  | transfer t =>
    simp only [runOwned] at h
    split at h
    · rename_i s₁ h₁
      obtain ⟨hopen, hm, rfl⟩ := State.setOwner_eq_some h₁
      cases h
      exact room_update rfl (.transferred c draw allow t k _ rfl hpc hopen hm) r'
    · cases h
      exact room_same rfl r'
  | kick v =>
    simp only [runOwned] at h
    split at h
    · rename_i s₁ h₁
      obtain ⟨hopen, hm, hv, hf⟩ := State.removeMember_eq_some hs.open_of_mem h₁
      cases h
      exact room_update (congrArg Floor.room hf)
        (.kicked c draw allow v k _ rfl hpc hopen hm hv) r'
    · cases h
      exact room_same rfl r'
  | roster d =>
    cases h
    refine room_same ?_ r'
    exact congrArg Floor.room (State.floor_broadcastExcept c hs.open_of_mem _)

theorem runOp_room [Payload D] (hs : Sound cfg s) {op : RoomOp D}
    (hpc : (s.conns c).pc = .member r (op :: k)) (h : runOp cfg s c draw r k op = some s')
    (r' : RoomId) : RoomChange cfg s (.run c draw allow) r' (s'.room r') := by
  have hopen := hs.open_of_mem (r := r)
  cases op with
  | owned q => exact hs.runOwned_room hpc h r'
  | relay body =>
    cases h
    simp only [State.relay]
    split
    · exact room_same rfl r'
    · exact room_update rfl (.touched s.now) r'
  | setSessionRoom =>
    cases h
    refine room_same ?_ r'
    obtain he | ⟨sc, -, he⟩ := s.setSessionRoom_eq (s.conns c).session r <;> rw [he] <;> rfl
  | clearSessionByClient v =>
    cases h
    refine room_same ?_ r'
    obtain ⟨m, hm, -⟩ := s.clearSessionByClient_eq (s.conns v).session v
    rw [hm]
    rfl
  | ownerCheck q =>
    have hnote : (s.noteCheck c r q).room = s.room := by
      unfold State.noteCheck
      split <;> rfl
    refine room_same ?_ r'
    simp only [runOp] at h
    split at h
    · cases h
      exact hnote
    · split at h <;> cases h <;> exact hnote
  | send dst m =>
    cases h
    refine room_same ?_ r'
    unfold State.clientSend
    split <;> rfl
  | broadcastPresence =>
    cases h
    exact room_same (congrArg Floor.room (State.floor_broadcastPresence hopen)) r'
  | broadcastFile m =>
    cases h
    exact room_same (congrArg Floor.room (State.floor_broadcastExcept c hopen m)) r'
  | snapshotMembers | endHandshake | rollback | fileStart | accept | forget =>
    cases h
    exact room_same rfl r'
  | getHandshake | release =>
    simp only [runOp] at h
    split at h <;> cases h <;> exact room_same rfl r'
  | fileChunk t i body =>
    simp only [runOp] at h
    split at h
    · cases h
      exact room_same rfl r'
    · split at h <;> cases h <;> exact room_same rfl r'
  | addInflight t cur i body =>
    simp only [runOp] at h
    split at h <;> cases h <;> exact room_same rfl r'

theorem runPc_room [Payload D] (hs : Sound cfg s)
    (h : runPc cfg s c draw allow (s.conns c).pc = some s') (r' : RoomId) :
    RoomChange cfg s (.run c draw allow) r' (s'.room r') := by
  cases hpc : (s.conns c).pc <;> rw [hpc] at h
  case absent | hsLoop | exited => simp [runPc] at h
  case allowCreate | allowRedeem | deferHandshakes | endHandshake | getRoom | hasCapacity =>
    cases h
    exact room_same rfl r'
  case claimCreate | claimRedeem =>
    simp only [runPc] at h
    split at h
    · rename_i s₁ h₁
      obtain ⟨-, rfl⟩ := State.tryClaimSession_eq_some h₁
      cases h
      exact room_same rfl r'
    · cases h
      exact room_same rfl r'
  case createRoom =>
    simp only [runPc, State.drawId] at h
    split at h
    · simp at h
    · rename_i hd
      cases h
      exact room_update rfl (.created c allow _ rfl hpc hd) r'
  case newHandshake =>
    simp only [runPc, State.drawId] at h
    split at h
    · simp at h
    · cases h
      exact room_same rfl r'
  case addOwner r =>
    simp only [runPc] at h
    split at h
    · rename_i s₁ h₁
      obtain ⟨hopen, hcap, rfl⟩ := State.add_eq_some h₁
      cases h
      exact room_update rfl (.added c draw allow _ rfl (.inl hpc) hopen hcap) r'
    · cases h
      exact room_same rfl r'
  case hsEnter r hid =>
    simp only [runPc] at h
    split at h
    · rename_i s₁ h₁
      obtain ⟨hopen, hcap, rfl⟩ := State.add_eq_some h₁
      cases h
      exact room_update rfl (.added c draw allow _ rfl (.inr ⟨hid, hpc⟩) hopen hcap) r'
    · cases h
      exact room_same rfl r'
  case redeemInvite tok =>
    simp only [runPc, State.redeemInvite] at h
    cases hinv : s.invites tok with
    | none =>
      rw [hinv] at h
      cases h
      exact room_same rfl r'
    | some inv =>
      rw [hinv] at h
      by_cases hexp : s.now > inv.expiresAt
      · simp only [if_pos hexp, Option.some.injEq] at h
        rw [← h]
        exact room_same rfl r'
      · simp only [if_neg hexp, Option.some.injEq] at h
        rw [← h]
        exact room_same rfl r'
  case ownerClient | hsRelay =>
    simp only [runPc] at h
    split at h <;> cases h <;> exact room_same rfl r'
  case sendRedeemOk | sendInviteRedeemed | hsSend | hsFull | fail =>
    cases h
    refine room_same ?_ r'
    unfold State.clientSend
    split <;> rfl
  case closeOut =>
    cases h
    refine room_same ?_ r'
    unfold State.closeChan
    split <;> rfl
  case member r todo =>
    cases todo with
    | nil => simp [runPc] at h
    | cons op k => exact hs.runOp_room hpc h r'
  case leave r =>
    simp only [runPc] at h
    split at h
    · cases h
      exact room_same rfl r'
    · rename_i hin
      push Not at hin
      split at h
      · cases h
        exact room_same rfl r'
      · rename_i ho
        cases h
        exact room_update (congrArg Floor.room (State.floor_dropMember hs.open_of_mem hin.1))
          (.left c draw allow _ rfl hpc (by simpa using hin.2) hin.1 fun he => ho he.symm) r'
  case leaveClose r reason =>
    simp only [runPc] at h
    split at h
    · rename_i s₁ h₁
      obtain ⟨hopen, rfl⟩ := State.closeBegin_eq_some h₁
      cases h
      exact room_update rfl (.destroyed c draw allow reason rfl hpc hopen) r'
    · cases h
      exact room_same rfl r'
  case leaveWait | awaitDone =>
    simp only [runPc] at h
    split at h
    · cases h
      exact room_same rfl r'
    · simp at h
  case clearSession | deferSession =>
    cases h
    obtain ⟨m, hm, -⟩ := s.clearSession_eq (s.conns c).session c
    exact room_same (by rw [hm]; rfl) r'
  case deferBytes rest =>
    cases rest <;> cases h <;> exact room_same rfl r'

theorem runClosing_room (hs : Sound cfg s) {pick : ClientId}
    (h : runClosing s r pick (s.room r).closing = some s') (r' : RoomId) :
    RoomChange cfg s (.closing r pick) r' (s'.room r') := by
  have hclosed : (s.room r).closing ≠ .no → (s.room r).closed = true := by
    intro hk
    by_contra hcl
    exact hk (hs.inv.open_idle r (Bool.eq_false_of_not_eq_true hcl))
  have move : ∀ {s₁ : State D} {k : Closing}, s₁.room = s.room → (s.room r).closing ≠ .no →
      RoomChange cfg s (.closing r pick) r' ((s₁.setClosing r k).room r') := by
    intro s₁ k h₁ hk
    refine room_update (r := r) ?_ (.closing pick k rfl (hclosed hk)) r'
    simp only [State.setClosing, State.setRoom, h₁]
  cases hk : (s.room r).closing with
  | no | done => simp [hk, runClosing] at h
  | removeRoom reason ms | dropInvites reason ms =>
    rw [hk] at h
    cases h
    exact move rfl (by simp [hk])
  | next reason ms =>
    rw [hk] at h
    cases ms with
    | nil =>
      cases h
      exact move rfl (by simp [hk])
    | cons m ms =>
      simp only [runClosing] at h
      split at h
      · cases h
        obtain ⟨mm, hm, -⟩ := s.clearSessionByClient_eq (s.conns pick).session pick
        exact move (by rw [hm]) (by simp [hk])
      · simp at h
  | notice re c ms =>
    rw [hk] at h
    cases h
    have hopen := (hs.inv.pend r c (by simp [State.floor, hk, Closing.pending])).1
    exact move (congrArg Floor.room (State.floor_sendLocked hopen _)) (by simp [hk])
  | closeOut reason c ms =>
    rw [hk] at h
    cases h
    have hopen := (hs.inv.pend r c (by simp [State.floor, hk, Closing.pending])).1
    exact move (congrArg Floor.room (State.floor_closeChan hopen)) (by simp [hk])

theorem reaps_room {a : Act D} {pick : RoomId} (h : Reaps s s')
    (ha : a = .janitor pick ∨ a = .shutdown pick) (r' : RoomId) :
    RoomChange cfg s a r' (s'.room r') := by
  obtain ⟨-, -, h | ⟨r, reason, hopen, h⟩⟩ := h
  · exact room_same h r'
  · exact room_update h (.reaped pick reason ha hopen) r'

/-- **What a step does to the rooms.** -/
theorem step_room [Payload D] (hs : Sound cfg s) {a : Act D} (h : step cfg s a = some s')
    (r : RoomId) : RoomChange cfg s a r (s'.room r) := by
  cases a with
  | connect c hello =>
    simp only [step, State.drawId] at h
    split at h
    · simp at h
    · cases h
      exact room_same rfl r
  | frame c m =>
    simp only [step] at h
    split at h
    · simp at h
    · obtain ⟨pc', -, rfl⟩ := Option.map_eq_some_iff.mp h
      exact room_same rfl r
  | readErr c =>
    obtain ⟨pc', -, rfl⟩ := Option.map_eq_some_iff.mp h
    exact room_same rfl r
  | run c draw allow => exact hs.runPc_room h r
  | pump c =>
    simp only [step] at h
    split at h
    · simp at h
    · split at h
      · simp at h
      · cases h
        exact room_same rfl r
  | pumpExit c =>
    simp only [step] at h
    split at h
    · simp at h
    · cases h
      exact room_same rfl r
  | drop c | clock t =>
    cases h
    exact room_same rfl r
  | closing r' pick => exact hs.runClosing_room h r
  | janitor pick => exact reaps_room (runJanitor_reaps h) (.inl rfl) r
  | shutdown pick => exact reaps_room (runShutdown_reaps h) (.inr rfl) r

end Sound

/-! ## Rooms over a whole run -/

variable {l : List (Lib.Machine.Transition (State D) (Act D))} {s s' : State D}

/-- `membersInfoLocked` lists one owner. -/
theorem owner_listed (hs : Sound cfg s) {r : RoomId} {o : ClientId}
    (ho : (s.room r).ownerID = some o) : (s.membersInfo r).filter (·.role = .owner) =
      [{ id := o, nick := (s.conns o).nick, role := .owner }] := by
  have hm : o ∈ (s.room r).members := hs.inv.owner_mem r o ho
  have hnodup : (s.room r).members.Nodup := (hs.inv.nodup r).1
  have hone : (s.room r).members.filter (fun c => c = o) = [o] := by
    rw [List.filter_eq, List.count_eq_one_of_mem hnodup hm]
    rfl
  rw [State.membersInfo, List.filter_map, ho]
  have hrole : ∀ c : ClientId, ((if some c = some o then Role.owner else .member) = .owner) ↔
      c = o := by
    intro c
    by_cases hc : c = o <;> simp [hc]
  simp only [Function.comp_def, hrole, hone, List.map_cons, List.map_nil, if_true]

variable [Payload D]

/-- No step reopens a room. -/
theorem closed_step (hs : Sound cfg s) {a : Act D} (h : step cfg s a = some s') {r : RoomId}
    (hcl : (s.room r).closed = true) : (s'.room r).closed = true := by
  have hdrawn : r ∈ s.drawn := by
    by_contra hr
    have := (hs.inv.room_drawn r hr).2.1
    simp [State.floor, hcl] at this
  generalize hrm : s'.room r = rm
  have hchange := hrm ▸ hs.step_room h r
  cases hchange with
  | same | touched | closing => exact hcl
  | created c allow t ha hpc hr => exact absurd hdrawn hr
  | added | transferred | kicked | left => simp_all
  | destroyed | reaped => rfl

/-- No step opens a channel again. -/
theorem shut_step (hs : Sound cfg s) {a : Act D} (h : step cfg s a = some s') {c : ClientId}
    (hcl : (s.conns c).outClosed = true) : (s'.conns c).outClosed = true := by
  have hdrawn : c ∈ s.drawn := by
    by_contra hc
    have habs := hs.inv.drawn c hc
    have := hs.inv.joining_open c (by rw [habs]; rfl)
    simp [State.floor, hcl] at this
  have hm := hs.step_move h
  change s.floor.shut c = true at hcl
  change s'.floor.shut c = true
  have hdrawn' : c ∈ s.floor.drawn := hdrawn
  generalize s.floor = f at *
  generalize s'.floor = f' at *
  cases hm <;> first | exact hcl | skip
  all_goals
    simp only [Floor.goto, Floor.setRoom, Floor.note, Floor.close, Function.update_apply]
    grind -ring -linarith

/-- No step closes a closed channel. -/
theorem closeClosed_step (hs : Sound cfg s) {a : Act D} (h : step cfg s a = some s')
    {c : ClientId} (hno : .closeClosed c ∉ s.log) : .closeClosed c ∉ s'.log := by
  have hm := hs.step_move h
  change Event.closeClosed c ∉ s.floor.log at hno
  change Event.closeClosed c ∉ s'.floor.log
  generalize s.floor = f at *
  generalize s'.floor = f' at *
  cases hm <;> first | exact hno | simpa [Floor.note, Floor.goto, Floor.setRoom, Floor.close] using hno

/-- The step closes the channel of `c`. -/
def shuts (c : ClientId) (t : Lib.Machine.Transition (State D) (Act D)) : Bool :=
  !(t.before.conns c).outClosed && (t.after.conns c).outClosed

theorem shuts_le (hl : (relay cfg).Trace l s) (c : ClientId) :
    l.countP (shuts c) ≤ if (s.conns c).outClosed then 1 else 0 := by
  induction hl with
  | nil => simp
  | @snoc l s s' a hl hs ih =>
    have hstep := fun h => shut_step (c := c) (sound_of_reach hl.reach) hs h
    rw [List.countP_append]
    cases hb : (s.conns c).outClosed <;> cases ha : (s'.conns c).outClosed <;>
      simp_all [shuts]

/-- **Rooms and channels.** In every state of every run: a live room has no more members than it
may; a room with members has an owner among them, the one owner its member list shows; a room that
was closed at some time has neither members nor owner; the channel of a member is open; and no
channel is closed twice. -/
theorem rooms_sound (hl : (relay (D := D) cfg).Trace l s) :
    (∀ r, (s.room r).closed = false → (s.room r).members.length ≤ cfg.maxRoomSize) ∧
    (∀ r, (s.room r).members ≠ [] → ∃ o ∈ (s.room r).members, (s.room r).ownerID = some o ∧
      (s.membersInfo r).filter (·.role = .owner) =
        [{ id := o, nick := (s.conns o).nick, role := .owner }]) ∧
    (∀ r, (s.room r).closed = true → (s.room r).members = [] ∧ (s.room r).ownerID = none) ∧
    (∀ r, ∀ t ∈ l, (t.after.room r).closed = true → (s.room r).closed = true) ∧
    (∀ r, ∀ c ∈ (s.room r).members, (s.conns c).outClosed = false) ∧
    (∀ c, l.countP (shuts c) ≤ 1 ∧ .closeClosed c ∉ s.log) := by
  have hs := sound_of_reach hl.reach
  refine ⟨fun r _ => hs.inv.size r, fun r hr => ?_, hs.inv.closed_empty, fun r t ht => ?_,
    fun r => hs.open_of_mem, fun c => ⟨?_, ?_⟩⟩
  · obtain ⟨o, ho⟩ := Option.ne_none_iff_exists'.mp (hs.inv.owner_some r hr)
    exact ⟨o, hs.inv.owner_mem r o ho, ho, owner_listed hs ho⟩
  · exact hl.persists (P := fun s => (s.room r).closed = true)
      (fun _ _ _ hr' h hstep => closed_step (sound_of_reach hr') hstep h) ht
  · refine (shuts_le hl c).trans ?_
    split <;> omega
  · exact hl.reach.invariant (I := fun s => .closeClosed c ∉ s.log) (by simp [relay])
      fun _ _ _ hr' h _ hstep => closeClosed_step (sound_of_reach hr') hstep h

theorem rooms_sound_sample :
    ((((relay sampleConfig).stepsFrom {} sampleEntered).get entered_some).2.room 100).members.length
      ≤ sampleConfig.maxRoomSize :=
  (rooms_sound (Lib.Machine.trace_get entered_some)).1 100 (by decide +kernel)

end E2EAnon.Relay
