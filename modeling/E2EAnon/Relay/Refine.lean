import E2EAnon.Relay.Membership

/-!
# Every operation of the relay is a move of the floor

`step_move`: in a state that satisfies `Sound`, a step of the machine is a `Move` between the
floors. `sound_of_reach`: every reachable state is `Sound`, whatever the schedule. `Sound` is the
floor's invariant with two facts about the parts the floor leaves out: what is queued behind the
operation in hand, and which rooms the janitor and `Shutdown` have in their snapshots.
-/

namespace E2EAnon.Relay

variable {D : Type} {cfg : Config}

/-- An operation that may wait behind the one in hand. The others are put in front when they are to
run next: the second half of a request, and the steps of the byte count. -/
def RoomOp.waits : RoomOp D → Bool
  | .owned _ | .clearSessionByClient _ | .fileStart _ _ _ | .addInflight _ _ _ _ | .accept _ _ _ _
  | .rollback _ | .forget _ => false
  | _ => true

def Janitor.rooms : Janitor → List RoomId
  | .idle | .gcInvites _ => []
  | .scan _ todo => todo
  | .idleFor _ r todo | .close _ r todo | .wait _ r todo => r :: todo

def Shutdown.rooms : Shutdown → List RoomId
  | .idle => []
  | .run todo => todo
  | .wait r todo => r :: todo

def Pc.tidy (pc : Pc D) : Prop :=
  ∀ r todo, pc = .member r todo → ∀ op ∈ todo.tail, op.waits = true

/-- What the floor leaves out: the operations queued in the handlers, and the rooms in the
snapshots of the janitor and `Shutdown`. -/
def State.Tidy (s : State D) : Prop :=
  (∀ c, (s.conns c).pc.tidy) ∧
    ∀ r, r ∈ s.rooms ∨ r ∈ s.janitor.rooms ∨ r ∈ s.shutdown.rooms → r ∈ s.drawn

structure Sound (cfg : Config) (s : State D) : Prop where
  inv : Inv cfg s.floor
  tidy : s.Tidy

/-! ## The floor of each operation -/

namespace State

theorem floor_setConn (s : State D) (c : ClientId) (f : Conn D → Conn D) :
    (s.setConn c f).floor =
      { s.floor with
        phase := Function.update s.floor.phase c (f (s.conns c)).pc.phase
        panicked := Function.update s.floor.panicked c (f (s.conns c)).panicked
        shut := Function.update s.floor.shut c (f (s.conns c)).outClosed
        session := Function.update s.floor.session c (f (s.conns c)).session } := by
  ext1 <;> try rfl
  all_goals
    funext d
    by_cases hd : d = c
    · subst hd; simp [setConn, floor]
    · simp [setConn, floor, hd]

/-- A change to the queue, the socket or the byte counters of a connection. -/
theorem floor_setConn_same (s : State D) (c : ClientId) (f : Conn D → Conn D)
    (hf : ((f (s.conns c)).pc, (f (s.conns c)).panicked, (f (s.conns c)).outClosed,
      (f (s.conns c)).session) = ((s.conns c).pc, (s.conns c).panicked, (s.conns c).outClosed,
      (s.conns c).session)) :
    (s.setConn c f).floor = s.floor := by
  simp only [Prod.mk.injEq] at hf
  obtain ⟨h1, h2, h3, h4⟩ := hf
  rw [floor_setConn, h1, h2, h3, h4]
  simp [floor]

@[simp] theorem floor_goto (s : State D) (c : ClientId) (pc : Pc D) :
    (s.goto c pc).floor = s.floor.goto c pc.phase := by
  rw [goto, floor_setConn]
  simp [Floor.goto, floor]

theorem floor_setRoom (s : State D) (r : RoomId) (rm : Room) :
    (s.setRoom r rm).floor = s.floor.setRoom r rm := rfl

theorem floor_setClosing (s : State D) (r : RoomId) (k : Closing) :
    (s.setClosing r k).floor = s.floor.setRoom r { s.floor.room r with closing := k } := rfl

theorem floor_note (s : State D) (e : Event) : (s.note e).floor = s.floor.note e := rfl

theorem floor_trySend (s : State D) (c : ClientId) (m : ServerMsg D) :
    (s.setConn c (·.trySend m)).floor = s.floor :=
  s.floor_setConn_same c _ (by unfold Conn.trySend; split <;> rfl)

theorem floor_sendLocked {s : State D} {c : ClientId} (h : (s.conns c).outClosed = false)
    (m : ServerMsg D) : (s.sendLocked c m).floor = s.floor := by
  simp only [sendLocked, h, Bool.false_eq_true, if_false, floor_trySend]

theorem floor_closeChan {s : State D} {c : ClientId} (h : (s.conns c).outClosed = false) :
    (s.closeChan c).floor = s.floor.close c := by
  simp only [closeChan, h, Bool.false_eq_true, if_false, floor_setConn]
  simp [floor, Floor.close]

theorem deliver_same (k : Conn D) (m : ServerMsg D) :
    (k.deliver m).pc = k.pc ∧ (k.deliver m).panicked = k.panicked ∧
      (k.deliver m).outClosed = k.outClosed ∧ (k.deliver m).session = k.session := by
  unfold Conn.deliver
  split
  · simp
  · split <;> simp

/-- A broadcast to open channels. -/
theorem floor_broadcastLocked {s : State D} {r : RoomId} {ex : Option ClientId}
    (h : ∀ c ∈ (s.room r).members, (s.conns c).outClosed = false) (m : ServerMsg D) :
    (s.broadcastLocked r m ex).floor = s.floor := by
  have hlog : (s.receivers r ex).filter (fun c => (s.conns c).outClosed) = [] := by
    rw [List.filter_eq_nil_iff]
    intro c hc
    simp [h c (List.mem_of_mem_filter hc)]
  simp only [broadcastLocked, hlog]
  ext1 <;> try rfl
  all_goals
    funext c
    obtain ⟨h1, h2, h3, h4⟩ := deliver_same (s.conns c) m
    simp only [floor]
    split <;> simp [h1, h2, h3, h4]

theorem floor_broadcastPresence {s : State D} {r : RoomId}
    (h : ∀ c ∈ (s.room r).members, (s.conns c).outClosed = false) :
    (s.broadcastPresence r).floor = s.floor := by
  unfold broadcastPresence
  split
  · rfl
  · exact floor_broadcastLocked h _

theorem floor_broadcastExcept {s : State D} {r : RoomId} (c : ClientId)
    (h : ∀ c ∈ (s.room r).members, (s.conns c).outClosed = false) (m : ServerMsg D) :
    (s.broadcastExcept r c m).floor = s.floor := by
  unfold broadcastExcept
  split
  · rfl
  · exact floor_broadcastLocked h _

theorem floor_sendTo {s : State D} {r : RoomId} (target : ClientId)
    (h : ∀ c ∈ (s.room r).members, (s.conns c).outClosed = false) (m : ServerMsg D) :
    (s.sendTo r target m).floor = s.floor := by
  unfold sendTo
  split
  · rfl
  · split
    · exact floor_sendLocked (h _ ‹_›) m
    · rfl

theorem setOwner_eq_some {s s' : State D} {r : RoomId} {target : ClientId}
    (h : s.setOwner r target = some s') :
    (s.room r).closed = false ∧ target ∈ (s.room r).members ∧
      s' = s.setRoom r { s.room r with ownerID := some target, lastActivity := s.now } := by
  simp only [setOwner] at h
  split at h
  · simp at h
  · rename_i hopen
    split at h
    · exact ⟨Bool.eq_false_of_not_eq_true hopen, ‹_›, (Option.some.inj h).symm⟩
    · simp at h

theorem floor_dropMember {s : State D} {r : RoomId} {c : ClientId}
    (h : ∀ d ∈ (s.room r).members, (s.conns d).outClosed = false) (hc : c ∈ (s.room r).members) :
    (s.dropMember r c).floor =
      (s.floor.close c).setRoom r (Floor.dropRoom (s.room r) c s.now) := by
  have hroom : (s.closeChan c).room = s.room := by
    simp [closeChan, h c hc, setConn]
  have hnow : (s.closeChan c).now = s.now := by
    simp [closeChan, h c hc, setConn]
  rw [dropMember, floor_broadcastLocked, floor_setRoom, floor_closeChan (h c hc), hroom, hnow]
  · rfl
  · intro d hd
    have hd' : d ∈ (s.room r).members ∧ d ≠ c := by simpa [setRoom, hroom] using hd
    simpa [setRoom, closeChan, h c hc, setConn, hd'.2] using h d hd'.1

theorem removeMember_eq_some {s s' : State D} {r : RoomId} {target : ClientId} {reason : Reason}
    (hopen : ∀ d ∈ (s.room r).members, (s.conns d).outClosed = false)
    (h : s.removeMember r target reason = some s') :
    (s.room r).closed = false ∧ target ∈ (s.room r).members ∧ (s.room r).ownerID ≠ some target ∧
      s'.floor = ((s.floor.close target).setRoom r
        (Floor.dropRoom (s.room r) target s.now)).note (.kicked target r) := by
  simp only [removeMember] at h
  split at h
  · simp at h
  · rename_i hno
    push Not at hno
    obtain ⟨hm, hcl, ho⟩ := hno
    cases h
    refine ⟨by simpa using hcl, hm, fun he => ho he.symm, ?_⟩
    set s₁ := s.sendLocked target { type := .roomClosed, reason := some reason } with h₁
    have hroom : s₁.room = s.room ∧ s₁.now = s.now := by
      simp [h₁, sendLocked, hopen target hm, setConn]
    have hsame : ∀ d, (s₁.conns d).outClosed = (s.conns d).outClosed :=
      fun d => congrFun (congrArg Floor.shut (floor_sendLocked (hopen target hm) _)) d
    rw [floor_note, floor_dropMember _ (hroom.1 ▸ hm), floor_sendLocked (hopen target hm), hroom.1,
      hroom.2]
    intro d hd
    rw [hsame]
    exact hopen d (hroom.1 ▸ hd)

theorem closeBegin_eq_some {s s' : State D} {r : RoomId} {reason : Option Reason}
    (h : s.closeBegin r reason = some s') :
    (s.room r).closed = false ∧ s' = s.setRoom r (Floor.closeRoom (s.room r) reason) := by
  simp only [closeBegin] at h
  split at h
  · simp at h
  · rename_i hopen
    exact ⟨Bool.eq_false_of_not_eq_true hopen, (Option.some.inj h).symm⟩

theorem closeBegin_eq_none {s : State D} {r : RoomId} {reason : Option Reason}
    (h : s.closeBegin r reason = none) : (s.room r).closed = true := by
  simp only [closeBegin] at h
  split at h
  · assumption
  · simp at h

theorem add_eq_some {s s' : State D} {r : RoomId} {c : ClientId} (h : s.add cfg r c = some s') :
    (s.room r).closed = false ∧ (s.room r).members.length < cfg.maxRoomSize ∧
      s' = (s.setRoom r (Floor.addRoom (s.room r) c s.now)).note (.added c r) := by
  simp only [add] at h
  split at h
  · simp at h
  · rename_i hopen
    split at h
    · simp at h
    · exact ⟨Bool.eq_false_of_not_eq_true hopen, by omega, (Option.some.inj h).symm⟩

theorem add_eq_none {s : State D} {r : RoomId} {c : ClientId} (h : s.add cfg r c = none) :
    (s.room r).closed = true ∨ cfg.maxRoomSize ≤ (s.room r).members.length := by
  simp only [add] at h
  split at h
  · exact .inl ‹_›
  · split at h
    · exact .inr ‹_›
    · simp at h

end State

/-! ## The handlers -/

theorem Floor.goto_self (f : Floor D) (c : ClientId) {p : Phase D} (h : f.phase c = p) :
    f.goto c p = f := by
  simp [Floor.goto, ← h]

theorem Move.of_eq {may : May} {f f' : Floor D} (h : f' = f) : Move cfg may f f' := by
  rw [h]
  exact .idle f

theorem headPhase_of_waits {r : RoomId} {k : List (RoomOp D)} (h : ∀ op ∈ k, op.waits = true) :
    headPhase r k = .member r := by
  cases k with
  | nil => rfl
  | cons op k =>
    have hop := h op (by simp)
    cases op <;> first | rfl | simp [RoomOp.waits] at hop

namespace Sound

variable {s s' : State D} {c : ClientId} {r : RoomId} {k : List (RoomOp D)} {draw : Handle}
  {may : May}

theorem open_of_mem (hs : Sound cfg s) {r : RoomId} :
    ∀ c ∈ (s.room r).members, (s.conns c).outClosed = false :=
  fun c hc => hs.inv.mem_open r c hc

/-- A send stays inside its phase, or panics. -/
theorem clientSend_move {p : Phase D} (hc : s.floor.phase c = p)
    (hp : p = .turned ∨ (∃ r, p = .joiner r) ∨ ∃ r, p = .member r) {dst : ClientId}
    (hmay : may.send c dst) (m : ServerMsg D) {pc : Pc D} (hpc : pc.phase = p) :
    Move cfg may s.floor (s.clientSend c dst m pc).floor := by
  unfold State.clientSend
  split
  · rename_i hd
    have hf : (s.panic c dst).floor =
        { s.floor.goto c .left with
          panicked := Function.update s.floor.panicked c true }.note (.sendClosed dst) := by
      rw [State.panic, State.floor_setConn]
      simp [Floor.note, Floor.goto, State.note, State.floor, Pc.phase]
    rw [hf]
    exact .panic _ c dst (hc ▸ hp) hd hmay
  · refine .of_eq ?_
    rw [State.floor_goto, State.floor_trySend, hpc, Floor.goto_self _ _ hc]

theorem runOwned_move [Payload D] (hs : Sound cfg s) {q : OwnerReq D}
    (hc : s.floor.phase c = .acting r q) (hk : headPhase r k = .member r)
    (h : runOwned cfg s c draw r k q = some s') : Move cfg may s.floor s'.floor := by
  cases q with
  | invite =>
    simp only [runOwned, State.drawId] at h
    split at h
    · simp at h
    · rename_i hd
      cases h
      rw [State.floor_goto]
      exact .invite _ c r draw _ hc hd
  | rekey t d =>
    cases h
    rw [State.floor_goto, State.floor_sendTo t hs.open_of_mem, Pc.phase, hk]
    exact .actDone _ c r _ hc
  | transfer t =>
    simp only [runOwned] at h
    split at h
    · rename_i s₁ h₁
      obtain ⟨hopen, hm, rfl⟩ := State.setOwner_eq_some h₁
      cases h
      rw [State.floor_goto]
      exact .setOwner _ c r t _ hc hopen hm
    · cases h
      rw [State.floor_goto, Pc.phase, hk]
      exact .actDone _ c r _ hc
  | kick v =>
    simp only [runOwned] at h
    split at h
    · rename_i s₁ h₁
      obtain ⟨hopen, hm, ho, hf⟩ := State.removeMember_eq_some hs.open_of_mem h₁
      cases h
      rw [State.floor_goto, hf]
      exact .kick _ c r v _ hc hopen hm ho
    · cases h
      rw [State.floor_goto, Pc.phase, hk]
      exact .actDone _ c r _ hc
  | roster d =>
    cases h
    rw [State.floor_goto, State.floor_broadcastExcept c hs.open_of_mem, Pc.phase, hk]
    exact .actDone _ c r _ hc

theorem runOp_move [Payload D] (hs : Sound cfg s) {op : RoomOp D} {allow : Bool}
    (hpc : (s.conns c).pc = .member r (op :: k)) (h : runOp cfg s c draw r k op = some s') :
    Move cfg (s.may (.run c draw allow)) s.floor s'.floor := by
  have hk : headPhase r k = .member r := headPhase_of_waits fun o ho =>
    hs.tidy.1 c r _ hpc o (by simpa using ho)
  have hph : s.floor.phase c = headPhase r (op :: k) := by
    simp only [State.floor, hpc, Pc.phase]
  have hopen := hs.open_of_mem (r := r)
  -- an operation that stays in `memberLoop` and leaves the rest of the floor alone
  have stay : ∀ {s₁ : State D} {todo : List (RoomOp D)}, s.floor.phase c = .member r →
      s₁.floor = s.floor → headPhase r todo = .member r →
      Move cfg (s.may (.run c draw allow)) s.floor (s₁.goto c (.member r todo)).floor := by
    intro s₁ todo hm h₁ htodo
    refine .of_eq ?_
    rw [State.floor_goto, h₁, Pc.phase, htodo, Floor.goto_self _ _ hm]
  cases op with
  | setSessionRoom =>
    cases h
    obtain he | ⟨sc, hsc, he⟩ := s.setSessionRoom_eq (s.conns c).session r
    · exact stay hph (by rw [he]) hk
    · rw [he, State.floor_goto, Pc.phase, hk, Floor.goto_self]
      · exact .setSessionRoom _ _ sc r hsc
      · exact hph
  | snapshotMembers role =>
    cases h
    exact stay hph rfl rfl
  | endHandshake h' =>
    cases h
    rw [State.floor_goto, Pc.phase, hk, Floor.goto_self]
    · exact .endHandshake _ h'
    · exact hph
  | broadcastPresence =>
    cases h
    exact stay hph (State.floor_broadcastPresence hopen) hk
  | send dst m =>
    cases h
    exact clientSend_move hph (.inr (.inr ⟨r, rfl⟩))
      (State.may_send (by simp only [State.sends, hpc]; rfl)) m hk
  | relay body =>
    cases h
    unfold State.relay
    split
    · exact stay hph rfl hk
    · rw [State.floor_goto, State.floor_broadcastLocked, Pc.phase, hk, Floor.goto_self]
      · exact .touch _ r s.now
      · exact hph
      · simpa [State.setRoom] using hopen
  | ownerCheck q =>
    simp only [runOp] at h
    split at h
    · rename_i ho
      cases h
      rw [State.floor_goto]
      cases q with
      | invite =>
        simp only [State.noteCheck, ho]
        exact .checkInvite _ c r hph ho
      | rekey | transfer | kick | roster => exact .check _ c r _ (by simp) hph ho
    · -- a refusal: with a reply or without
      obtain ⟨todo, htodo, rfl⟩ : ∃ todo, headPhase r todo = .member r ∧
          s' = (s.noteCheck c r q).goto c (.member r todo) := by
        split at h <;> cases h
        · exact ⟨_, rfl, rfl⟩
        · exact ⟨_, hk, rfl⟩
      unfold State.noteCheck
      split
      · rename_i o ho
        rw [State.floor_goto, Pc.phase, htodo, Floor.goto_self]
        · exact .checkFailed _ c r o hph ho
        · exact hph
      · exact stay hph rfl htodo
  | owned q => exact hs.runOwned_move hph hk h
  | clearSessionByClient v =>
    cases h
    obtain ⟨m, hm, hcl⟩ := s.clearSessionByClient_eq (s.conns v).session v
    rw [hm, State.floor_goto, Pc.phase, hk]
    exact .kickCleared _ c r v m hph hcl (by simp only [State.may, State.releases, hpc]; rfl)
  | getHandshake type h' d =>
    simp only [runOp] at h
    split at h <;> cases h
    · exact stay hph rfl rfl
    · exact stay hph rfl hk
  | fileStart t kid d =>
    cases h
    exact stay hph (State.floor_setConn_same _ _ _ rfl) rfl
  | fileChunk t i d =>
    simp only [runOp] at h
    split at h
    · cases h
      exact stay hph rfl hk
    · split at h <;> cases h <;> exact stay hph rfl rfl
  | addInflight t cur i d =>
    simp only [runOp] at h
    split at h <;> cases h <;> exact stay hph rfl rfl
  | accept t cur i d =>
    cases h
    exact stay hph (State.floor_setConn_same _ _ _ rfl) rfl
  | rollback size =>
    cases h
    exact stay hph rfl hk
  | release t =>
    simp only [runOp] at h
    split at h <;> cases h
    · exact stay hph rfl rfl
    · exact stay hph rfl hk
  | forget t =>
    cases h
    exact stay hph (State.floor_setConn_same _ _ _ rfl) hk
  | broadcastFile m =>
    cases h
    exact stay hph (State.floor_broadcastExcept c hopen m) hk

/-- What a connection's goroutine does outside `memberLoop`'s handlers. -/
theorem runPc_move [Payload D] (hs : Sound cfg s) {allow : Bool}
    (h : runPc cfg s c draw allow (s.conns c).pc = some s') :
    Move cfg (s.may (.run c draw allow)) s.floor s'.floor := by
  have hph : s.floor.phase c = (s.conns c).pc.phase := rfl
  -- an operation that stays inside its phase
  have stay : ∀ {pc : Pc D}, s.floor.phase c = pc.phase →
      Move cfg (s.may (.run c draw allow)) s.floor (s.goto c pc).floor := by
    intro pc hpc
    exact .of_eq (by rw [State.floor_goto, Floor.goto_self _ _ hpc])
  -- a claim
  have claim : ∀ {s₁ : State D} {pc : Pc D}, s.floor.phase c = .hello →
      s.tryClaimSession (s.conns c).session c = some s₁ →
      pc.phase = .creating ∨ pc.phase = .redeeming →
      Move cfg (s.may (.run c draw allow)) s.floor (s₁.goto c pc).floor := by
    intro s₁ pc hc h₁ hpc
    obtain ⟨hfree, rfl⟩ := State.tryClaimSession_eq_some h₁
    rw [State.floor_goto]
    exact .claim _ c pc.phase hc hpc hfree
  -- one that turns the connection away
  have turn : ∀ {pc : Pc D}, pc.phase = .turned → (s.floor.phase c = .hello ∨
      s.floor.phase c = .redeeming ∨ ∃ r, s.floor.phase c = .joiner r) →
      Move cfg (s.may (.run c draw allow)) s.floor (s.goto c pc).floor := by
    intro pc hpc hc
    rw [State.floor_goto, hpc]
    exact .turn _ c hc
  -- an operation that sends without a lock
  have send : ∀ {p : Phase D} {dst : ClientId} {m : ServerMsg D} {pc : Pc D},
      s.floor.phase c = p → p = .turned ∨ (∃ r, p = .joiner r) ∨ (∃ r, p = .member r) →
      (s.conns c).pc.sends c = some dst → pc.phase = p →
      Move cfg (s.may (.run c draw allow)) s.floor (s.clientSend c dst m pc).floor :=
    fun hc hp hdst hpc => clientSend_move hc hp (State.may_send hdst) _ hpc
  cases hpc : (s.conns c).pc <;> rw [hpc] at h hph send
  case absent | hsLoop | exited => simp [runPc] at h
  case allowCreate =>
    cases h
    cases allow
    · exact turn rfl (.inl hph)
    · exact stay hph
  case claimCreate =>
    simp only [runPc] at h
    split at h <;> cases h
    · exact claim hph ‹_› (.inl rfl)
    · exact turn rfl (.inl hph)
  case createRoom =>
    simp only [runPc, State.drawId] at h
    split at h
    · simp at h
    · rename_i hd
      cases h
      rw [State.floor_goto]
      exact .createRoom _ c draw s.now hph hd
  case addOwner r =>
    simp only [runPc] at h
    split at h <;> cases h
    · rename_i h₁
      obtain ⟨hopen, hcap, rfl⟩ := State.add_eq_some h₁
      rw [State.floor_goto]
      exact .add _ c r s.now (.inl hph) hopen hcap
    · rename_i h₁
      rw [State.floor_goto]
      exact .addFailed _ c r hph (State.add_eq_none h₁)
  case allowRedeem tok =>
    cases h
    cases allow
    · exact turn rfl (.inl hph)
    · exact stay hph
  case claimRedeem tok =>
    simp only [runPc] at h
    split at h <;> cases h
    · exact claim hph ‹_› (.inr rfl)
    · exact turn rfl (.inl hph)
  case redeemInvite tok =>
    simp only [runPc, State.redeemInvite] at h
    cases hinv : s.invites tok with
    | none =>
      rw [hinv] at h
      cases h
      exact turn rfl (.inr (.inl hph))
    | some inv =>
      rw [hinv] at h
      by_cases hexp : s.now > inv.expiresAt
      · simp only [if_pos hexp, Option.some.injEq] at h
        rw [← h, State.floor_goto]
        exact .redeemExpired _ c tok hph
      · simp only [if_neg hexp, Option.some.injEq] at h
        rw [← h, State.floor_goto]
        exact .redeem _ c tok inv s.now hph hinv (by omega)
  case getRoom tok r =>
    cases h
    split
    · exact stay hph
    · exact turn rfl (.inr (.inr ⟨r, hph⟩))
  case hasCapacity tok r =>
    cases h
    split
    · exact stay hph
    · exact turn rfl (.inr (.inr ⟨r, hph⟩))
  case ownerClient tok r =>
    simp only [runPc] at h
    split at h <;> cases h
    · exact stay hph
    · exact turn rfl (.inr (.inr ⟨r, hph⟩))
  case newHandshake tok r o =>
    simp only [runPc, State.drawId] at h
    split at h
    · simp at h
    · rename_i hd
      cases h
      rw [State.floor_goto, Floor.goto_self]
      · exact .newHandshake _ c o r draw hph hd (by simp only [State.may, State.pairs, hpc]; rfl)
      · exact hph
  case sendRedeemOk tok r o h' =>
    cases h
    exact send hph (.inr (.inl ⟨r, rfl⟩)) rfl rfl
  case sendInviteRedeemed tok r o h' =>
    cases h
    exact send hph (.inr (.inl ⟨r, rfl⟩)) rfl rfl
  case hsRelay r h' type h'' d =>
    simp only [runPc] at h
    split at h <;> cases h <;> exact stay hph
  case hsSend r h' dst m =>
    cases h
    exact send hph (.inr (.inl ⟨r, rfl⟩)) rfl rfl
  case hsEnter r h' =>
    simp only [runPc] at h
    split at h <;> cases h
    · rename_i h₁
      obtain ⟨hopen, hcap, rfl⟩ := State.add_eq_some h₁
      rw [State.floor_goto]
      exact .add _ c r s.now (.inr hph) hopen hcap
    · exact turn rfl (.inr (.inr ⟨r, hph⟩))
  case hsFull h' =>
    cases h
    exact send hph (.inl rfl) rfl rfl
  case endHandshake h' =>
    cases h
    rw [State.floor_goto, Floor.goto_self]
    · exact .endHandshake _ h'
    · exact hph
  case fail m =>
    cases h
    exact send hph (.inl rfl) rfl rfl
  case closeOut =>
    cases h
    have hopen := hs.inv.joining_open c (by rw [hph]; rfl)
    rw [State.floor_goto, State.floor_closeChan hopen]
    exact .closeOut _ c hph
  case member r todo =>
    cases todo with
    | nil => simp [runPc] at h
    | cons op k => exact hs.runOp_move hpc h
  case leave r =>
    simp only [runPc] at h
    split at h
    · cases h
      rw [State.floor_goto]
      exact .leaveGone _ c r hph ‹_›
    · rename_i hin
      push Not at hin
      obtain ⟨hm, hcl⟩ := hin
      have hopen := Bool.eq_false_of_not_eq_true hcl
      split at h
      · cases h
        rw [State.floor_goto]
        exact .leaveOwner _ c r hph hopen (Eq.symm ‹_›)
      · rename_i ho
        cases h
        rw [State.floor_goto, State.floor_dropMember hs.open_of_mem hm]
        refine .leaveMember _ c r s.now _ hph hopen hm (fun he => ho he.symm) ?_
        split
        · rename_i hnil
          refine .inr ⟨rfl, ?_⟩
          have := congrArg Floor.room (State.floor_dropMember hs.open_of_mem hm)
          have hroom := congrArg Room.members (congrFun this r)
          simp only [State.floor, Floor.setRoom, Floor.dropRoom, Function.update_self] at hroom
          exact hroom ▸ hnil
        · exact .inl rfl
  case leaveClose r reason =>
    simp only [runPc] at h
    split at h <;> cases h
    · rename_i h₁
      obtain ⟨hopen, rfl⟩ := State.closeBegin_eq_some h₁
      rw [State.floor_goto]
      exact .closeBegin _ c r reason hph hopen
    · rename_i h₁
      rw [State.floor_goto]
      exact .closeSkip _ c r hph (State.closeBegin_eq_none h₁)
  case leaveWait r =>
    simp only [runPc] at h
    split at h
    · cases h
      rw [State.floor_goto]
      exact .closeWaited _ c r hph ‹_›
    · simp at h
  case clearSession =>
    cases h
    obtain ⟨m, hm, hcl⟩ := s.clearSession_eq (s.conns c).session c
    rw [hm, State.floor_goto, Floor.goto_self]
    · exact .clearSession _ c m hph hcl (by simp only [State.may, State.releases, hpc]; rfl)
    · exact hph
  case awaitDone =>
    simp only [runPc] at h
    split at h
    · cases h
      exact stay hph
    · simp at h
  case deferHandshakes =>
    cases h
    rw [State.floor_goto]
    exact .endHandshakesFor _ c hph
  case deferSession =>
    cases h
    obtain ⟨m, hm, hcl⟩ := s.clearSession_eq (s.conns c).session c
    rw [hm, State.floor_goto]
    exact .deferSession _ c m hph hcl (by simp only [State.may, State.releases, hpc]; rfl)
  case deferBytes rest =>
    cases rest <;> cases h <;> exact stay hph

theorem runClosing_move (hs : Sound cfg s) {pick : ClientId}
    (h : runClosing s r pick (s.room r).closing = some s') :
    Move cfg (s.may (.closing r pick)) s.floor s'.floor := by
  cases hcl : (s.room r).closing <;> rw [hcl] at h
  case no | done => simp [runClosing] at h
  case removeRoom reason ms =>
    cases h
    exact .removeRoom _ r reason ms hcl
  case dropInvites reason ms =>
    cases h
    exact .dropInvites _ r reason ms hcl
  case next reason ms =>
    cases ms with
    | nil =>
      cases h
      exact .closeDone _ r reason hcl
    | cons m ms =>
      simp only [runClosing] at h
      split at h
      · rename_i hpick
        cases h
        obtain ⟨m', hm, hclr⟩ := s.clearSessionByClient_eq (s.conns pick).session pick
        rw [hm, State.floor_setClosing]
        refine .closeNext _ r reason (m :: ms) pick _ m' hcl hpick ?_ ?_ hclr
          (by simp only [State.may, State.releases, hcl]; rfl)
        · cases reason <;> rfl
        · cases reason <;> simp
      · simp at h
  case notice re c ms =>
    cases h
    have hopen := hs.inv.pend r c (by simp [State.floor, hcl, Closing.pending])
    rw [State.floor_setClosing, State.floor_sendLocked hopen.1]
    exact .closeNotice _ r re ms c hcl
  case closeOut reason c ms =>
    cases h
    have hopen := hs.inv.pend r c (by simp [State.floor, hcl, Closing.pending])
    rw [State.floor_setClosing, State.floor_closeChan hopen.1]
    exact .closeMember _ r reason ms c hcl

theorem runJanitor_move (hs : Sound cfg s) {pick : RoomId}
    (h : runJanitor cfg s pick s.janitor = some s') : Move cfg may s.floor s'.floor := by
  cases hj : s.janitor <;> rw [hj] at h
  case idle =>
    simp only [runJanitor] at h
    split at h
    · simp at h
    · cases h
      exact .idle _
  case scan now todo =>
    cases todo with
    | nil =>
      cases h
      exact .idle _
    | cons r rs =>
      simp only [runJanitor] at h
      split at h
      · cases h
        exact .idle _
      · simp at h
  case idleFor now r todo =>
    cases h
    exact .idle _
  case close now r todo =>
    simp only [runJanitor] at h
    split at h <;> cases h
    · rename_i h₁
      obtain ⟨hopen, rfl⟩ := State.closeBegin_eq_some h₁
      exact .closeExternal _ r (some .idle) (hs.tidy.2 r (by simp [hj, Janitor.rooms])) hopen
    · exact .idle _
  case wait now r todo =>
    simp only [runJanitor] at h
    split at h
    · cases h
      exact .idle _
    · simp at h
  case gcInvites now =>
    cases h
    exact .gcInvites _ now

theorem runShutdown_move (hs : Sound cfg s) {pick : RoomId}
    (h : runShutdown s pick s.shutdown = some s') : Move cfg may s.floor s'.floor := by
  cases hj : s.shutdown <;> rw [hj] at h
  case idle =>
    cases h
    exact .idle _
  case run todo =>
    cases todo with
    | nil => simp [runShutdown] at h
    | cons r rs =>
      simp only [runShutdown] at h
      split at h
      · rename_i hpick
        split at h <;> cases h
        · rename_i h₁
          obtain ⟨hopen, rfl⟩ := State.closeBegin_eq_some h₁
          exact .closeExternal _ pick (some .serverStop)
            (hs.tidy.2 pick (by simp [hj, Shutdown.rooms, List.mem_cons.mp hpick])) hopen
        · exact .idle _
      · simp at h
  case wait r todo =>
    simp only [runShutdown] at h
    split at h
    · cases h
      exact .idle _
    · simp at h

theorem memberFrame_spec {m : ClientMsg D} {todo : List (RoomOp D)}
    (h : memberFrame c m = some todo) :
    headPhase r todo = .member r ∧ ∀ op ∈ todo.tail, op.waits = true := by
  cases m <;> simp only [memberFrame, Option.some.injEq, reduceCtorEq] at h <;> subst h <;>
    try split
  all_goals simp [RoomOp.waits, headPhase]

/-- A frame read: it may end the connection, and else stays in its loop. -/
theorem readFrame_move {f : Floor D} {m : ClientMsg D} {pc pc' : Pc D} (hph : f.phase c = pc.phase)
    (h : readFrame c m pc = some pc') : Move cfg may f (f.goto c pc'.phase) := by
  cases pc <;> simp only [readFrame, reduceCtorEq] at h
  case hsLoop r h' =>
    cases h
    cases m <;> simp only [joinerFrame] <;> try exact .of_eq (Floor.goto_self _ _ hph)
    case leave => exact .turn _ c (.inr (.inr ⟨r, hph⟩))
    case enter h'' => split <;> exact .of_eq (Floor.goto_self _ _ hph)
  case member r todo =>
    cases todo with
    | cons op k => simp at h
    | nil =>
      simp only at h
      split at h <;> cases h
      · rename_i todo' hm
        refine .of_eq ?_
        rw [Pc.phase, (memberFrame_spec hm).1]
        exact Floor.goto_self _ _ hph
      · exact .leave _ c r hph

theorem readFails_move {f : Floor D} {pc pc' : Pc D} (hph : f.phase c = pc.phase)
    (h : readFails pc = some pc') : Move cfg may f (f.goto c pc'.phase) := by
  cases pc <;> simp only [readFails, reduceCtorEq] at h
  case hsLoop r h' =>
    cases h
    exact .turn _ c (.inr (.inr ⟨r, hph⟩))
  case member r todo =>
    cases todo with
    | cons op k => simp at h
    | nil =>
      cases h
      exact .leave _ c r hph

/-- **Every operation of the relay is a move of its floor**, which sends without a lock to no client
but the one its label addresses, and takes away no claim but that of the client it releases for. -/
theorem step_move [Payload D] (hs : Sound cfg s) {a : Act D} (h : step cfg s a = some s') :
    Move cfg (s.may a) s.floor s'.floor := by
  cases a with
  | connect c hello =>
    simp only [step, State.drawId] at h
    split at h
    · simp at h
    · rename_i hd
      cases h
      have hp : (helloPc hello).phase = .hello ∨ (helloPc hello).phase = .turned := by
        cases hello <;> simp [helloPc, Pc.phase]
      rw [State.floor_setConn]
      exact .connect _ c (helloSession hello) _ hd hp
  | frame c m =>
    simp only [step] at h
    split at h
    · simp at h
    · obtain ⟨pc', hread, rfl⟩ := Option.map_eq_some_iff.mp h
      have hph : s.floor.phase c = (s.conns c).pc.phase := rfl
      rw [State.floor_goto]
      exact readFrame_move hph hread
  | readErr c =>
    obtain ⟨pc', hread, rfl⟩ := Option.map_eq_some_iff.mp h
    have hph : s.floor.phase c = (s.conns c).pc.phase := rfl
    have hf : (s.setConn c fun k => { k with pc := pc', sockClosed := true }).floor =
        s.floor.goto c pc'.phase := by
      rw [State.floor_setConn]
      simp [State.floor, Floor.goto]
    rw [hf]
    exact readFails_move hph hread
  | run c draw allow => exact hs.runPc_move h
  | pump c =>
    simp only [step] at h
    split at h
    · simp at h
    · split at h
      · simp at h
      · cases h
        exact .of_eq (State.floor_setConn_same _ _ _ rfl)
  | pumpExit c =>
    simp only [step] at h
    split at h
    · simp at h
    · cases h
      exact .of_eq (State.floor_setConn_same _ _ _ rfl)
  | drop c =>
    cases h
    exact .of_eq (State.floor_setConn_same _ _ _ rfl)
  | closing r pick => exact hs.runClosing_move h
  | janitor pick => exact hs.runJanitor_move h
  | shutdown pick => exact hs.runShutdown_move h
  | clock t =>
    cases h
    exact .idle _

/-! ## The parts the floor leaves out -/

theorem tidy_member {todo : List (RoomOp D)} (h : ∀ op ∈ todo.tail, op.waits = true) :
    (Pc.member r todo).tidy := by
  intro r' todo' he
  cases he
  exact h

theorem tidy_setConn {f : Conn D → Conn D} (h : s.Tidy)
    (hf : (f (s.conns c)).pc.tidy) : (s.setConn c f).Tidy := by
  refine ⟨fun d => ?_, h.2⟩
  by_cases hd : d = c
  · subst hd
    simpa [State.setConn] using hf
  · simpa [State.setConn, hd] using h.1 d

theorem tidy_goto {pc : Pc D} (h : s.Tidy) (hpc : pc.tidy) :
    (s.goto c pc).Tidy :=
  tidy_setConn h hpc

theorem tidy_quiet (h : s.Tidy) (hq : State.Quiet s s') :
    s'.Tidy := by
  refine ⟨fun d => ?_, ?_⟩
  · rw [hq.pc d]
    exact h.1 d
  · rw [hq.rooms, hq.janitor, hq.shutdown, hq.drawn]
    exact h.2

theorem tidy_draw (h : s.Tidy) (x : Handle) : ({ s with drawn := x :: s.drawn } : State D).Tidy :=
  ⟨h.1, fun r hr => List.mem_cons_of_mem x (h.2 r hr)⟩

theorem tidy_sessions (h : s.Tidy) (m : AList (fun _ : String => SessionClaim)) :
    ({ s with sessions := m } : State D).Tidy := h

theorem tidy_clientSend {dst : ClientId} {m : ServerMsg D} {pc : Pc D}
    (h : s.Tidy) (hpc : pc.tidy) :
    (s.clientSend c dst m pc).Tidy := by
  unfold State.clientSend
  split
  · exact tidy_setConn (tidy_quiet h (.note _)) (by simp [Pc.tidy])
  · exact tidy_goto (tidy_quiet h (.trySend m)) hpc

theorem runOp_tidy [Payload D] (h : s.Tidy) {op : RoomOp D}
    (hk : ∀ op ∈ k, op.waits = true) (hrun : runOp cfg s c draw r k op = some s') :
    s'.Tidy := by
  have rest : (Pc.member r k).tidy :=
    tidy_member fun o ho => hk o (List.mem_of_mem_tail ho)
  have next : ∀ op : RoomOp D, (Pc.member r (op :: k)).tidy := fun op => tidy_member hk
  cases op with
  | setSessionRoom =>
    cases hrun
    obtain he | ⟨sc, -, he⟩ := s.setSessionRoom_eq (s.conns c).session r <;> rw [he]
    · exact tidy_goto h rest
    · exact tidy_goto (tidy_sessions h _) rest
  | snapshotMembers role => cases hrun; exact tidy_goto h (next _)
  | endHandshake h' => cases hrun; exact tidy_goto h rest
  | broadcastPresence => cases hrun; exact tidy_goto (tidy_quiet h .broadcastPresence) rest
  | send dst m => cases hrun; exact tidy_clientSend h rest
  | relay body => cases hrun; exact tidy_goto (tidy_quiet h (.relay body)) rest
  | ownerCheck q =>
    have hq := tidy_quiet h (.noteCheck c r q)
    simp only [runOp] at hrun
    split at hrun
    · cases hrun; exact tidy_goto hq (next _)
    · split at hrun <;> cases hrun
      · exact tidy_goto hq (next _)
      · exact tidy_goto hq rest
  | owned q =>
    simp only [runOp] at hrun
    cases q with
    | invite =>
      simp only [runOwned, State.drawId] at hrun
      split at hrun
      · simp at hrun
      · cases hrun
        exact tidy_goto (tidy_draw h draw) (next _)
    | rekey t d => cases hrun; exact tidy_goto (tidy_quiet h (.sendTo _)) rest
    | transfer t =>
      simp only [runOwned] at hrun
      split at hrun <;> cases hrun
      · exact tidy_goto (tidy_quiet h (.setOwner ‹_›)) (next _)
      · exact tidy_goto h rest
    | kick t =>
      simp only [runOwned] at hrun
      split at hrun <;> cases hrun
      · exact tidy_goto (tidy_quiet h (.removeMember ‹_›)) (next _)
      · exact tidy_goto h rest
    | roster d => cases hrun; exact tidy_goto (tidy_quiet h (.broadcastExcept _)) rest
  | clearSessionByClient v =>
    cases hrun
    obtain ⟨m, hm, -⟩ := s.clearSessionByClient_eq "" v
    rw [hm]
    exact tidy_goto (tidy_sessions h m) rest
  | getHandshake type h' d =>
    simp only [runOp] at hrun
    split at hrun <;> cases hrun
    · exact tidy_goto h (next _)
    · exact tidy_goto h rest
  | fileStart t kid d => cases hrun; exact tidy_goto (tidy_setConn h (h.1 c)) (next _)
  | fileChunk t i d =>
    simp only [runOp] at hrun
    split at hrun
    · cases hrun; exact tidy_goto h rest
    · split at hrun <;> cases hrun
      · refine tidy_goto h (tidy_member ?_)
        simpa [abortFile, RoomOp.waits] using hk
      · exact tidy_goto h (next _)
  | addInflight t cur i d =>
    simp only [runOp] at hrun
    split at hrun <;> cases hrun
    · refine tidy_goto h (tidy_member ?_)
      simpa [abortFile, RoomOp.waits] using hk
    · exact tidy_goto h (next _)
  | accept t cur i d => cases hrun; exact tidy_goto (tidy_setConn h (h.1 c)) (next _)
  | rollback size => cases hrun; exact tidy_goto h rest
  | release t =>
    simp only [runOp] at hrun
    split at hrun <;> cases hrun
    · exact tidy_goto h (next _)
    · exact tidy_goto h rest
  | forget t => cases hrun; exact tidy_goto (tidy_setConn h (h.1 c)) rest
  | broadcastFile m => cases hrun; exact tidy_goto (tidy_quiet h (.broadcastExcept m)) rest

theorem runPc_tidy [Payload D] (h : s.Tidy) {allow : Bool}
    (hrun : runPc cfg s c draw allow (s.conns c).pc = some s') : s'.Tidy := by
  cases hpc : (s.conns c).pc <;> rw [hpc] at hrun
  case absent | hsLoop | exited => simp [runPc] at hrun
  case allowCreate | allowRedeem =>
    cases hrun
    cases allow <;> exact tidy_goto h (by simp [Pc.tidy])
  case claimCreate | claimRedeem =>
    simp only [runPc] at hrun
    split at hrun <;> cases hrun
    · rename_i h₁
      obtain ⟨-, rfl⟩ := State.tryClaimSession_eq_some h₁
      exact tidy_goto (tidy_sessions h _) (by simp [Pc.tidy])
    · exact tidy_goto h (by simp [Pc.tidy])
  case createRoom =>
    simp only [runPc, State.drawId] at hrun
    split at hrun
    · simp at hrun
    · cases hrun
      refine tidy_goto ⟨h.1, fun r hr => ?_⟩ (by simp [Pc.tidy])
      simp only [State.note, State.setRoom, List.mem_cons] at hr ⊢
      have := h.2 r
      tauto
  case addOwner r =>
    simp only [runPc] at hrun
    have hp : (Pc.member r [.setSessionRoom, .snapshotMembers .owner] : Pc D).tidy :=
      tidy_member (by simp [RoomOp.waits])
    split at hrun <;> cases hrun
    · exact tidy_goto (tidy_quiet h (.add ‹_›)) hp
    · exact tidy_goto h hp
  case redeemInvite tok =>
    simp only [runPc, State.redeemInvite] at hrun
    cases hinv : s.invites tok with
    | none =>
      rw [hinv] at hrun
      cases hrun
      exact tidy_goto h (by simp [Pc.tidy])
    | some inv =>
      rw [hinv] at hrun
      by_cases hexp : s.now > inv.expiresAt
      · simp only [if_pos hexp, Option.some.injEq] at hrun
        rw [← hrun]
        exact tidy_goto h (by simp [Pc.tidy])
      · simp only [if_neg hexp, Option.some.injEq] at hrun
        rw [← hrun]
        exact tidy_goto h (by simp [Pc.tidy])
  case getRoom | hasCapacity =>
    cases hrun
    split <;> exact tidy_goto h (by simp [Pc.tidy])
  case ownerClient | hsRelay =>
    simp only [runPc] at hrun
    split at hrun <;> cases hrun <;> exact tidy_goto h (by simp [Pc.tidy])
  case newHandshake tok r o =>
    simp only [runPc, State.drawId] at hrun
    split at hrun
    · simp at hrun
    · cases hrun
      exact tidy_goto (tidy_draw h draw) (by simp [Pc.tidy])
  case sendRedeemOk | sendInviteRedeemed | hsSend | hsFull | fail =>
    cases hrun
    exact tidy_clientSend h (by simp [Pc.tidy])
  case hsEnter r h' =>
    simp only [runPc] at hrun
    split at hrun <;> cases hrun
    · exact tidy_goto (tidy_quiet h (.add ‹_›)) (tidy_member (by simp [RoomOp.waits]))
    · exact tidy_goto h (by simp [Pc.tidy])
  case endHandshake h' => cases hrun; exact tidy_goto h (by simp [Pc.tidy])
  case closeOut => cases hrun; exact tidy_goto (tidy_quiet h .closeChan) (by simp [Pc.tidy])
  case member r todo =>
    cases todo with
    | nil => simp [runPc] at hrun
    | cons op k => exact runOp_tidy h (h.1 c r _ hpc) hrun
  case leave r =>
    simp only [runPc] at hrun
    split at hrun
    · cases hrun; exact tidy_goto h (by simp [Pc.tidy])
    · split at hrun
      · cases hrun; exact tidy_goto h (by simp [Pc.tidy])
      · cases hrun
        refine tidy_goto (tidy_quiet h .dropMember) ?_
        split <;> simp [Pc.tidy]
  case leaveClose r reason =>
    simp only [runPc] at hrun
    split at hrun <;> cases hrun
    · exact tidy_goto (tidy_quiet h (.closeBegin ‹_›)) (by simp [Pc.tidy])
    · exact tidy_goto h (by simp [Pc.tidy])
  case leaveWait | awaitDone =>
    simp only [runPc] at hrun
    split at hrun
    · cases hrun; exact tidy_goto h (by simp [Pc.tidy])
    · simp at hrun
  case clearSession | deferSession =>
    cases hrun
    obtain ⟨m, hm, -⟩ := s.clearSession_eq (s.conns c).session c
    rw [hm]
    exact tidy_goto (tidy_sessions h m) (by simp [Pc.tidy])
  case deferHandshakes => cases hrun; exact tidy_goto h (by simp [Pc.tidy])
  case deferBytes rest =>
    cases rest <;> cases hrun <;> exact tidy_goto h (by simp [Pc.tidy])

theorem runClosing_tidy (h : s.Tidy) {pick : ClientId}
    (hrun : runClosing s r pick (s.room r).closing = some s') : s'.Tidy := by
  cases hcl : (s.room r).closing <;> rw [hcl] at hrun
  case no | done => simp [runClosing] at hrun
  case removeRoom reason ms =>
    cases hrun
    refine ⟨h.1, fun r' hr => h.2 r' ?_⟩
    simp only [State.setClosing, State.setRoom, List.mem_filter] at hr
    tauto
  case dropInvites reason ms => cases hrun; exact h
  case next reason ms =>
    cases ms with
    | nil => cases hrun; exact h
    | cons m ms =>
      simp only [runClosing] at hrun
      split at hrun
      · cases hrun
        obtain ⟨m', hm, -⟩ := s.clearSessionByClient_eq "" pick
        rw [hm]
        exact h
      · simp at hrun
  case notice re c ms =>
    cases hrun; exact tidy_quiet h ((State.Quiet.sendLocked _).trans (.setRoom _))
  case closeOut reason c ms =>
    cases hrun; exact tidy_quiet h (State.Quiet.closeChan.trans (.setRoom _))

theorem tidy_janitor (h : s.Tidy) {j : Janitor}
    (hj : ∀ r ∈ j.rooms, r ∈ s.rooms ∨ r ∈ s.janitor.rooms) :
    ({ s with janitor := j } : State D).Tidy :=
  ⟨h.1, fun r hr => h.2 r (by have := hj r; tauto)⟩

theorem runJanitor_tidy (h : s.Tidy) {pick : RoomId}
    (hrun : runJanitor cfg s pick s.janitor = some s') : s'.Tidy := by
  cases hj : s.janitor <;> rw [hj] at hrun
  case idle =>
    simp only [runJanitor] at hrun
    split at hrun
    · simp at hrun
    · cases hrun
      exact tidy_janitor h fun r hr => .inl hr
  case scan now todo =>
    cases todo with
    | nil => cases hrun; exact tidy_janitor h (by simp [Janitor.rooms])
    | cons r rs =>
      simp only [runJanitor] at hrun
      split at hrun
      · rename_i hpick
        cases hrun
        refine tidy_janitor h fun r' hr' => .inr ?_
        rw [hj]
        split at hr' <;> simp only [Janitor.rooms, List.mem_cons, List.mem_filter] at hr' hpick ⊢
        · obtain rfl | hr' := hr'
          · exact hpick
          · exact hr'.1
        · exact hr'.1
      · simp at hrun
  case idleFor now r todo =>
    cases hrun
    refine tidy_janitor h fun r' hr' => .inr ?_
    rw [hj]
    split at hr' <;> simp only [Janitor.rooms, List.mem_cons] at hr' ⊢
    · exact hr'
    · exact .inr hr'
  case close now r todo =>
    simp only [runJanitor] at hrun
    split at hrun <;> rename_i h₁ <;> cases hrun
    · have hq := (State.Quiet.closeBegin h₁).trans (.note (.reaped r))
      refine tidy_janitor (tidy_quiet h hq) fun r' hr' => .inr ?_
      rw [hq.janitor, hj]
      exact hr'
    · refine tidy_janitor h fun r' hr' => .inr ?_
      rw [hj]
      exact List.mem_cons_of_mem r hr'
  case wait now r todo =>
    simp only [runJanitor] at hrun
    split at hrun
    · cases hrun
      refine tidy_janitor h fun r' hr' => .inr ?_
      rw [hj]
      exact List.mem_cons_of_mem r hr'
    · simp at hrun
  case gcInvites now => cases hrun; exact tidy_janitor h (by simp [Janitor.rooms])

theorem tidy_shutdown (h : s.Tidy) {j : Shutdown}
    (hj : ∀ r ∈ j.rooms, r ∈ s.rooms ∨ r ∈ s.shutdown.rooms) :
    ({ s with shutdown := j } : State D).Tidy :=
  ⟨h.1, fun r hr => h.2 r (by have := hj r; tauto)⟩

theorem runShutdown_tidy (h : s.Tidy) {pick : RoomId}
    (hrun : runShutdown s pick s.shutdown = some s') : s'.Tidy := by
  cases hj : s.shutdown <;> rw [hj] at hrun
  case idle => cases hrun; exact tidy_shutdown h fun r hr => .inl hr
  case run todo =>
    cases todo with
    | nil => simp [runShutdown] at hrun
    | cons r rs =>
      simp only [runShutdown] at hrun
      split at hrun
      · rename_i hpick
        split at hrun <;> rename_i h₁ <;> cases hrun
        · have hq := (State.Quiet.closeBegin h₁).trans (.note (.reaped pick))
          refine tidy_shutdown (tidy_quiet h hq) fun r' hr' => .inr ?_
          rw [hq.shutdown, hj]
          obtain rfl | hr' := List.mem_cons.mp hr'
          · exact hpick
          · exact List.mem_of_mem_filter hr'
        · refine tidy_shutdown h fun r' hr' => .inr ?_
          rw [hj]
          exact (List.mem_filter.mp hr').1
      · simp at hrun
  case wait r todo =>
    simp only [runShutdown] at hrun
    split at hrun
    · cases hrun
      refine tidy_shutdown h fun r' hr' => .inr ?_
      rw [hj]
      exact List.mem_cons_of_mem r hr'
    · simp at hrun

theorem readFrame_tidy {m : ClientMsg D} {pc pc' : Pc D} (h : readFrame c m pc = some pc') :
    pc'.tidy := by
  cases pc <;> simp only [readFrame, reduceCtorEq] at h
  case hsLoop r h' =>
    cases h
    cases m <;> simp only [joinerFrame] <;> (try split) <;> simp [Pc.tidy]
  case member r todo =>
    cases todo with
    | cons op k => simp at h
    | nil =>
      simp only at h
      split at h <;> cases h
      · exact tidy_member (memberFrame_spec (r := r) ‹_›).2
      · simp [Pc.tidy]

theorem readFails_tidy {pc pc' : Pc D} (h : readFails pc = some pc') : pc'.tidy := by
  cases pc <;> simp only [readFails, reduceCtorEq] at h
  case hsLoop r h' => cases h; simp [Pc.tidy]
  case member r todo =>
    cases todo with
    | cons op k => simp at h
    | nil => cases h; simp [Pc.tidy]

theorem step_tidy [Payload D] (h : s.Tidy) {a : Act D} (hrun : step cfg s a = some s') :
    s'.Tidy := by
  cases a with
  | connect c hello =>
    simp only [step, State.drawId] at hrun
    split at hrun
    · simp at hrun
    · cases hrun
      refine tidy_setConn (tidy_draw h c) ?_
      cases hello <;> simp [helloPc, Pc.tidy]
  | frame c m =>
    simp only [step] at hrun
    split at hrun
    · simp at hrun
    · obtain ⟨pc', hread, rfl⟩ := Option.map_eq_some_iff.mp hrun
      exact tidy_goto h (readFrame_tidy hread)
  | readErr c =>
    obtain ⟨pc', hread, rfl⟩ := Option.map_eq_some_iff.mp hrun
    exact tidy_setConn h (readFails_tidy hread)
  | run c draw allow => exact runPc_tidy h hrun
  | pump c =>
    simp only [step] at hrun
    split at hrun
    · simp at hrun
    · split at hrun
      · simp at hrun
      · cases hrun; exact tidy_setConn h (h.1 c)
  | pumpExit c =>
    simp only [step] at hrun
    split at hrun
    · simp at hrun
    · cases hrun; exact tidy_setConn h (h.1 c)
  | drop c => cases hrun; exact tidy_setConn h (h.1 c)
  | closing r pick => exact runClosing_tidy h hrun
  | janitor pick => exact runJanitor_tidy h hrun
  | shutdown pick => exact runShutdown_tidy h hrun
  | clock t => cases hrun; exact h

end Sound

variable [Payload D] {ok : State D → Act D → Prop} {s s' : State D}

/-- **Every reachable state is sound**, whatever the schedule and whatever the clients send. -/
theorem sound_of_reach (hr : (relay (D := D) cfg).Reach ok s) : Sound cfg s :=
  hr.invariant (I := Sound cfg)
    ⟨Inv.init, by simp [State.Tidy, relay, Pc.tidy, Janitor.rooms, Shutdown.rooms]⟩
    fun _ _ _ _ hs _ hstep => ⟨hs.inv.move (hs.step_move hstep), Sound.step_tidy hs.tidy hstep⟩

theorem panicked_of_reach (hr : (relay (D := D) cfg).Reach ok s) :
    ∀ c, (s.conns c).panicked = true → ∃ d, .sendClosed d ∈ s.log :=
  hr.invariant (I := fun s => ∀ c, s.floor.panicked c = true → ∃ d, .sendClosed d ∈ s.floor.log)
    (by simp [State.floor, relay])
    fun _ _ _ hr' h _ hstep => panicked_move h ((sound_of_reach hr').step_move hstep)

theorem not_panicked_of_calm (hr : (relay (D := D) cfg).Reach ok s) (hs : s.Calm) (c : ClientId) :
    (s.conns c).panicked = false := by
  by_contra hp
  obtain ⟨d, hd⟩ := panicked_of_reach hr c (by simpa using hp)
  simpa [Event.crash] using hs _ hd

end E2EAnon.Relay
