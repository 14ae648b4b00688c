import Mathlib.Data.List.Basic
import Mathlib.Logic.Function.Basic
import E2EAnon.Relay.State

/-!
# Atomic operations of the relay (`hub.go`, `invites.go`, `room.go`, `client.go`)

Each definition is one critical section, one channel operation or one atomic addition, under the
source's name. A method with several sections (`Close`, `RemoveMember`, `Leave`) is cut at its
unlocks; the parts are put in sequence in `Step.lean`.

A send on a closed channel and a second close of one panic in Go. They are recorded in the history
(`sendClosed`, `closeClosed`); `Step.lean` unwinds the goroutine of an unlocked send.
-/

namespace E2EAnon.Relay

variable {D : Type}

namespace State

/-! ## One connection -/

def setConn (s : State D) (c : ClientId) (f : Conn D → Conn D) : State D :=
  { s with conns := Function.update s.conns c (f (s.conns c)) }

def goto (s : State D) (c : ClientId) (pc : Pc D) : State D :=
  s.setConn c fun k => { k with pc }

def setRoom (s : State D) (r : RoomId) (rm : Room) : State D :=
  { s with room := Function.update s.room r rm }

def note (s : State D) (e : Event) : State D :=
  { s with log := e :: s.log }

end State

/-- `trySend` on an open channel (`client.go:81`): a full buffer drops the message. -/
def Conn.trySend (k : Conn D) (m : ServerMsg D) : Conn D :=
  if k.out.length < outboundBuffer then { k with out := k.out ++ [m] } else k

/-- One receiver of `broadcastLocked` (`room.go:292-296`): a slow consumer is disconnected. -/
def Conn.deliver (k : Conn D) (m : ServerMsg D) : Conn D :=
  if k.outClosed then k
  else if k.out.length < outboundBuffer then { k with out := k.out ++ [m] }
  else { k with sockClosed := true }

namespace State

/-- `trySend` under the room lock or in `Close`. -/
def sendLocked (s : State D) (c : ClientId) (m : ServerMsg D) : State D :=
  if (s.conns c).outClosed then s.note (.sendClosed c) else s.setConn c (·.trySend m)

/-- `close(c.out)`. -/
def closeChan (s : State D) (c : ClientId) : State D :=
  if (s.conns c).outClosed then s.note (.closeClosed c)
  else s.setConn c fun k => { k with outClosed := true }

/-! ## Room sections -/

/-- `membersInfoLocked` (`room.go:275`). -/
def membersInfo (s : State D) (r : RoomId) : List MemberInfo :=
  (s.room r).members.map fun c =>
    { id := c, nick := (s.conns c).nick,
      role := if some c = (s.room r).ownerID then .owner else .member }

/-- The members a broadcast reaches. -/
def receivers (s : State D) (r : RoomId) (exceptID : Option ClientId) : List ClientId :=
  (s.room r).members.filter fun c => some c ≠ exceptID

/-- `broadcastLocked` (`room.go:287`). -/
def broadcastLocked (s : State D) (r : RoomId) (m : ServerMsg D) (exceptID : Option ClientId) :
    State D :=
  { s with
    conns := fun c => if c ∈ s.receivers r exceptID then (s.conns c).deliver m else s.conns c
    log := ((s.receivers r exceptID).filter fun c => (s.conns c).outClosed).map .sendClosed
      ++ s.log }

def presenceMsg (s : State D) (r : RoomId) : ServerMsg D :=
  { type := .presence, members := some (s.membersInfo r) }

/-- `BroadcastPresence` (`room.go:104`). -/
def broadcastPresence (s : State D) (r : RoomId) : State D :=
  if (s.room r).closed then s else s.broadcastLocked r (s.presenceMsg r) none

/-- `BroadcastExcept` (`room.go:154`). -/
def broadcastExcept (s : State D) (r : RoomId) (c : ClientId) (m : ServerMsg D) : State D :=
  if (s.room r).closed then s else s.broadcastLocked r m (some c)

/-- `OwnerClient` (`room.go:56`). -/
def ownerClient (s : State D) (r : RoomId) : Option ClientId :=
  if (s.room r).closed then none
  else (s.room r).ownerID.filter fun o => o ∈ (s.room r).members

/-- `HasCapacity` (`room.go:67`). -/
def hasCapacity (cfg : Config) (s : State D) (r : RoomId) : Bool :=
  !(s.room r).closed && decide ((s.room r).members.length < cfg.maxRoomSize)

/-- `Add` (`room.go:83`); `none` is `errRoomClosed` or `errRoomFull`. -/
def add (cfg : Config) (s : State D) (r : RoomId) (c : ClientId) : Option (State D) :=
  let rm := s.room r
  if rm.closed then none
  else if rm.members.length ≥ cfg.maxRoomSize then none
  else some <| (s.setRoom r { rm with
    ownerID := if rm.members = [] then some c else rm.ownerID
    members := if c ∈ rm.members then rm.members else rm.members ++ [c]
    lastActivity := s.now }).note (.added c r)

/-- `SetOwner` (`room.go:119`); `none` is a refusal. -/
def setOwner (s : State D) (r : RoomId) (target : ClientId) : Option (State D) :=
  let rm := s.room r
  if rm.closed then none
  else if target ∈ rm.members then
    some (s.setRoom r { rm with ownerID := some target, lastActivity := s.now })
  else none

/-- The section in which `c` goes out of the members map, its channel is closed and the rest get
presence: the common part of `RemoveMember` and `Leave`. -/
def dropMember (s : State D) (r : RoomId) (c : ClientId) : State D :=
  let s := s.closeChan c
  let s := s.setRoom r { s.room r with
    members := (s.room r).members.filter (· ≠ c), lastActivity := s.now }
  s.broadcastLocked r (s.presenceMsg r) none

/-- `RemoveMember` up to its unlock (`room.go:136-148`); `none` is the no-op. -/
def removeMember (s : State D) (r : RoomId) (target : ClientId) (reason : Reason) :
    Option (State D) :=
  let rm := s.room r
  if target ∉ rm.members ∨ rm.closed ∨ some target = rm.ownerID then none
  else some (((s.sendLocked target { type := .roomClosed, reason := some reason }).dropMember r
    target).note (.kicked target r))

/-- `SendTo` (`room.go:165`). -/
def sendTo (s : State D) (r : RoomId) (target : ClientId) (m : ServerMsg D) : State D :=
  if (s.room r).closed then s
  else if target ∈ (s.room r).members then s.sendLocked target m else s

/-- `Relay` (`room.go:177`). -/
def relay (s : State D) (r : RoomId) (c : ClientId) (body : D) : State D :=
  if (s.room r).closed ∨ c ∉ (s.room r).members then s
  else (s.setRoom r { s.room r with lastActivity := s.now }).broadcastLocked r
    { type := .chat, fromId := some c, nick := some (s.conns c).nick, body := some body,
      ts := some s.now } (some c)

/-- The first section of `Close` (`room.go:230-238`); `none` if the room is closed already. -/
def closeBegin (s : State D) (r : RoomId) (reason : Option Reason) : Option (State D) :=
  let rm := s.room r
  if rm.closed then none
  else some (s.setRoom r { rm with
    closed := true, members := [], ownerID := none, closing := .removeRoom reason rm.members })

def setClosing (s : State D) (r : RoomId) (k : Closing) : State D :=
  s.setRoom r { s.room r with closing := k }

/-! ## Hub sections -/

/-- `TryClaimSession` (`hub.go:81`); `none` is a refusal. -/
def tryClaimSession (s : State D) (sid : String) (c : ClientId) : Option (State D) :=
  if sid = "" then some s
  else if (s.sessions.lookup sid).isSome then none
  else some { s with sessions := s.sessions.insert sid { client := c } }

/-- `SetSessionRoom` (`hub.go:95`). -/
def setSessionRoom (s : State D) (sid : String) (r : RoomId) : State D :=
  match s.sessions.lookup sid with
  | some sc =>
    if sid = "" then s
    else { s with sessions := s.sessions.insert sid { sc with room := some r } }
  | none => s

/-- `ClearSession` (`hub.go:109`). -/
def clearSession (s : State D) (sid : String) (c : ClientId) : State D :=
  match s.sessions.lookup sid with
  | some sc =>
    if sid ≠ "" ∧ sc.client = c then { s with sessions := s.sessions.erase sid } else s
  | none => s

/-- `ClearSessionByClient` (`hub.go:124`): the first claim of `c` the loop meets. -/
def clearSessionByClient (s : State D) (c : ClientId) : State D :=
  match s.sessions.entries.find? fun e => e.2.client = c with
  | some e => { s with sessions := s.sessions.erase e.1 }
  | none => s

/-- `CreateInvite` (`invites.go:19`). -/
def createInvite (cfg : Config) (s : State D) (tok : Handle) (r : RoomId) : State D :=
  { s with invites := Function.update s.invites tok (some ⟨r, s.now + cfg.inviteCodeTTL⟩) }

/-- `RedeemInvite` (`invites.go:30`): a known token is used up whether or not it has expired. -/
def redeemInvite (s : State D) (tok : Handle) : State D × Option RoomId :=
  match s.invites tok with
  | none => (s, none)
  | some inv =>
    ({ s with invites := Function.update s.invites tok none },
      if s.now > inv.expiresAt then none else some inv.room)

/-- `dropInvitesForRoom` (`invites.go:46`). -/
def dropInvitesForRoom (s : State D) (r : RoomId) : State D :=
  { s with invites := fun t => (s.invites t).filter fun inv => inv.room ≠ r }

/-- `gcInvites` (`invites.go:57`). -/
def gcInvites (s : State D) (now : Int) : State D :=
  { s with invites := fun t => (s.invites t).filter fun inv => ¬ now > inv.expiresAt }

/-- `NewHandshake` (`invites.go:76`). -/
def newHandshake (s : State D) (h : Handle) (r : RoomId) (joiner owner : ClientId) : State D :=
  { s with handshakes := Function.update s.handshakes h (some ⟨r, joiner, owner⟩) }

/-- `EndHandshake` (`invites.go:93`). -/
def endHandshake (s : State D) (h : Handle) : State D :=
  { s with handshakes := Function.update s.handshakes h none }

/-- `EndHandshakesFor` (`invites.go:101`). -/
def endHandshakesFor (s : State D) (c : ClientId) : State D :=
  { s with handshakes := fun h =>
      (s.handshakes h).filter fun hs => ¬ (hs.joiner = c ∨ hs.owner = c) }

/-- `AddInflight` (`hub.go:51`). -/
def addInflight (s : State D) (delta : Int64) : State D :=
  { s with inflight := s.inflight + delta }

/-! ## What the sections leave alone

`Quiet s s'`: channels, rooms and the history may differ; the goroutines, what only they write, the
hub's maps and its counter do not. A socket may be closed, none is opened again. -/

/-- The part of a connection only its own goroutine writes. -/
def own (s : State D) (c : ClientId) : Pc D × String × Bool × AList (fun _ : String => Int64) :=
  ((s.conns c).pc, (s.conns c).session, (s.conns c).panicked, (s.conns c).fileTransfers)

structure Quiet (s s' : State D) : Prop where
  own : s'.own = s.own
  started : s'.started = s.started
  inflight : s'.inflight = s.inflight
  drawn : s'.drawn = s.drawn
  janitor : s'.janitor = s.janitor
  shutdown : s'.shutdown = s.shutdown
  rooms : s'.rooms = s.rooms
  sessions : s'.sessions = s.sessions
  invites : s'.invites = s.invites
  handshakes : s'.handshakes = s.handshakes
  sock : ∀ c, (s.conns c).sockClosed = true → (s'.conns c).sockClosed = true

namespace Quiet

variable {s s' s'' : State D} {c : ClientId} {r : RoomId}

theorem rfl : Quiet s s :=
  ⟨.refl _, .refl _, .refl _, .refl _, .refl _, .refl _, .refl _, .refl _, .refl _, .refl _,
    fun _ h => h⟩

theorem trans (h : Quiet s s') (h' : Quiet s' s'') : Quiet s s'' :=
  ⟨h'.own.trans h.own, h'.started.trans h.started, h'.inflight.trans h.inflight,
    h'.drawn.trans h.drawn, h'.janitor.trans h.janitor, h'.shutdown.trans h.shutdown,
    h'.rooms.trans h.rooms, h'.sessions.trans h.sessions, h'.invites.trans h.invites,
    h'.handshakes.trans h.handshakes, fun c hc => h'.sock c (h.sock c hc)⟩

theorem pc (h : Quiet s s') (c : ClientId) : (s'.conns c).pc = (s.conns c).pc :=
  congrArg Prod.fst (congrFun h.own c)

theorem session (h : Quiet s s') (c : ClientId) : (s'.conns c).session = (s.conns c).session :=
  congrArg (·.2.1) (congrFun h.own c)

theorem panicked (h : Quiet s s') (c : ClientId) : (s'.conns c).panicked = (s.conns c).panicked :=
  congrArg (·.2.2.1) (congrFun h.own c)

theorem fileTransfers (h : Quiet s s') (c : ClientId) :
    (s'.conns c).fileTransfers = (s.conns c).fileTransfers :=
  congrArg (·.2.2.2) (congrFun h.own c)

theorem setConn (f : Conn D → Conn D)
    (hf : ∀ k : Conn D, ((f k).pc, (f k).session, (f k).panicked, (f k).fileTransfers) =
      (k.pc, k.session, k.panicked, k.fileTransfers))
    (hsock : ∀ k : Conn D, k.sockClosed = true → (f k).sockClosed = true) :
    Quiet s (s.setConn c f) where
  own := by
    funext d
    by_cases hd : d = c
    · subst hd
      simpa [State.own, State.setConn] using hf (s.conns d)
    · simp [State.own, State.setConn, hd]
  started := .refl _
  inflight := .refl _
  drawn := .refl _
  janitor := .refl _
  shutdown := .refl _
  rooms := .refl _
  sessions := .refl _
  invites := .refl _
  handshakes := .refl _
  sock d hd := by
    by_cases hdc : d = c
    · subst hdc
      simpa [State.setConn] using hsock _ hd
    · simpa [State.setConn, hdc] using hd

theorem setRoom (rm : Room) : Quiet s (s.setRoom r rm) :=
  ⟨.refl _, .refl _, .refl _, .refl _, .refl _, .refl _, .refl _, .refl _, .refl _, .refl _,
    fun _ h => h⟩

theorem note (e : Event) : Quiet s (s.note e) :=
  ⟨.refl _, .refl _, .refl _, .refl _, .refl _, .refl _, .refl _, .refl _, .refl _, .refl _,
    fun _ h => h⟩

theorem trySend (m : ServerMsg D) : Quiet s (s.setConn c (·.trySend m)) :=
  setConn _ (fun k => by unfold Conn.trySend; split <;> simp)
    fun k hk => by unfold Conn.trySend; split <;> exact hk

theorem sendLocked (m : ServerMsg D) : Quiet s (s.sendLocked c m) := by
  unfold State.sendLocked
  split
  · exact note _
  · exact trySend m

theorem closeChan : Quiet s (s.closeChan c) := by
  unfold State.closeChan
  split
  · exact note _
  · exact setConn _ (fun _ => .refl _) fun _ h => h

theorem broadcastLocked (m : ServerMsg D) (ex : Option ClientId) :
    Quiet s (s.broadcastLocked r m ex) where
  own := by
    funext d
    simp only [State.own, State.broadcastLocked]
    split
    · unfold Conn.deliver
      split
      · simp
      · split <;> simp
    · simp
  started := .refl _
  inflight := .refl _
  drawn := .refl _
  janitor := .refl _
  shutdown := .refl _
  rooms := .refl _
  sessions := .refl _
  invites := .refl _
  handshakes := .refl _
  sock d hd := by
    simp only [State.broadcastLocked]
    split
    · unfold Conn.deliver
      split
      · exact hd
      · split
        · exact hd
        · rfl
    · exact hd

theorem broadcastPresence : Quiet s (s.broadcastPresence r) := by
  unfold State.broadcastPresence
  split
  · exact rfl
  · exact broadcastLocked _ _

theorem broadcastExcept (m : ServerMsg D) : Quiet s (s.broadcastExcept r c m) := by
  unfold State.broadcastExcept
  split
  · exact rfl
  · exact broadcastLocked _ _

theorem sendTo (m : ServerMsg D) : Quiet s (s.sendTo r c m) := by
  unfold State.sendTo
  split
  · exact rfl
  · split
    · exact sendLocked m
    · exact rfl

theorem relay (body : D) : Quiet s (s.relay r c body) := by
  unfold State.relay
  split
  · exact rfl
  · exact (setRoom _).trans (broadcastLocked _ _)

theorem dropMember : Quiet s (s.dropMember r c) :=
  (closeChan.trans (setRoom _)).trans (broadcastLocked _ _)

theorem removeMember {reason : Reason} (h : s.removeMember r c reason = some s') : Quiet s s' := by
  simp only [State.removeMember] at h
  split at h
  · simp at h
  · cases h
    exact ((sendLocked _).trans dropMember).trans (note _)

theorem setOwner (h : s.setOwner r c = some s') : Quiet s s' := by
  simp only [State.setOwner] at h
  split at h
  · simp at h
  · split at h
    · cases h
      exact setRoom _
    · simp at h

theorem add {cfg : Config} (h : s.add cfg r c = some s') : Quiet s s' := by
  simp only [State.add] at h
  split at h
  · simp at h
  · split at h
    · simp at h
    · cases h
      exact (setRoom _).trans (note _)

theorem closeBegin {reason : Option Reason} (h : s.closeBegin r reason = some s') :
    Quiet s s' := by
  simp only [State.closeBegin] at h
  split at h
  · simp at h
  · cases h
    exact setRoom _

end Quiet

/-! ## What the claims' sections do -/

theorem tryClaimSession_eq_some {s s' : State D} {sid : String} {c : ClientId}
    (h : s.tryClaimSession sid c = some s') :
    (sid ≠ "" → s.sessions.lookup sid = none) ∧
      s' = { s with
        sessions := if sid = "" then s.sessions else s.sessions.insert sid { client := c } } := by
  simp only [tryClaimSession] at h
  split at h
  · rename_i hsid
    cases h
    exact ⟨fun hne => absurd hsid hne, by simp [hsid]⟩
  · rename_i hsid
    split at h
    · simp at h
    · rename_i hno
      cases h
      exact ⟨fun _ => by simpa using hno, by simp [hsid]⟩

theorem setSessionRoom_eq (s : State D) (sid : String) (r : RoomId) :
    s.setSessionRoom sid r = s ∨ ∃ sc, s.sessions.lookup sid = some sc ∧
      s.setSessionRoom sid r = { s with sessions := s.sessions.insert sid { sc with room := some r } } := by
  unfold setSessionRoom
  split
  · rename_i sc hsc
    split
    · exact .inl rfl
    · exact .inr ⟨sc, hsc, rfl⟩
  · exact .inl rfl

/-- What a release on behalf of `c`, whose hello carried `sid`, does to the claims: it removes one
claim of `c`, or none if `c` has no claim to `sid`. -/
def ClearsFor (sid : String) (c : ClientId) (m m' : AList (fun _ : String => SessionClaim)) :
    Prop :=
  (m' = m ∧ ∀ sc, m.lookup sid = some sc → sid ≠ "" → sc.client ≠ c) ∨
    ∃ k sc, m.lookup k = some sc ∧ sc.client = c ∧ m' = m.erase k

theorem clearSession_eq (s : State D) (sid : String) (c : ClientId) :
    ∃ m, s.clearSession sid c = { s with sessions := m } ∧ ClearsFor sid c s.sessions m := by
  unfold clearSession
  split
  · rename_i sc hsc
    split
    · exact ⟨_, rfl, .inr ⟨sid, sc, hsc, by tauto, rfl⟩⟩
    · rename_i hno
      refine ⟨s.sessions, rfl, .inl ⟨rfl, fun sc' hsc' hsid hc => ?_⟩⟩
      have : sc' = sc := Option.some.inj (hsc'.symm.trans hsc)
      exact hno ⟨hsid, this ▸ hc⟩
  · rename_i hno
    exact ⟨s.sessions, rfl, .inl ⟨rfl, fun sc' hsc' => by simp [hno] at hsc'⟩⟩

theorem clearSessionByClient_eq (s : State D) (sid : String) (c : ClientId) :
    ∃ m, s.clearSessionByClient c = { s with sessions := m } ∧ ClearsFor sid c s.sessions m := by
  unfold clearSessionByClient
  split
  · rename_i e he
    have hmem := List.mem_of_find?_eq_some he
    have hc : e.2.client = c := by simpa using List.find?_some he
    exact ⟨_, rfl, .inr ⟨e.1, e.2, AList.mem_lookup_iff.mpr hmem, hc, rfl⟩⟩
  · rename_i hno
    refine ⟨s.sessions, rfl, Or.inl ⟨rfl, fun sc hsc _ hc => ?_⟩⟩
    have hmem : (Sigma.mk sid sc : Sigma fun _ : String => SessionClaim) ∈ s.sessions.entries :=
      AList.mem_lookup_iff.mp hsc
    have := List.find?_eq_none.mp hno _ hmem
    simp [hc] at this

end State

end E2EAnon.Relay
