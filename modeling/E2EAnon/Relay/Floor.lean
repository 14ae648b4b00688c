import E2EAnon.Relay.Step

/-!
# The relay without its payloads

`Floor` keeps what decides who is in which room: the phase of each connection, the rooms, the
claims, the invites and the handshakes. Queued messages, byte counters, sockets and the position
inside a handler are gone; most operations of `Step.lean` leave the floor as it is. `Move` is its
transition relation. `Refine.lean` shows that every operation of the relay is a `Move`, so an
invariant of the moves holds in every interleaving of the goroutines.
-/

namespace E2EAnon.Relay

variable {D : Type}

/-- Where a connection is in its life. -/
inductive Phase (D : Type)
  | absent
  /-- Its hello is read; no claim yet. -/
  | hello
  /-- It will not enter a room: error reply, end of its handshake, `CloseOut`. -/
  | turned
  /-- `runOwner` after the claim. -/
  | creating
  /-- `runOwner` has created `r` and not yet called `Add`. -/
  | opening (r : RoomId)
  /-- `runJoiner` after the claim. -/
  | redeeming
  /-- `runJoiner` has redeemed a token for `r`. -/
  | joiner (r : RoomId)
  /-- `memberLoop`. -/
  | member (r : RoomId)
  /-- `memberLoop`, between the ownership check of `q` and the request itself. -/
  | acting (r : RoomId) (q : OwnerReq D)
  /-- `memberLoop`, between the two sections of `RemoveMember`. -/
  | clearing (r : RoomId) (v : ClientId)
  /-- At `Leave`. -/
  | leaving (r : RoomId)
  /-- Between the section of `Leave` and that of `Close`. -/
  | closing (r : RoomId)
  /-- In `Close`, called by `Leave`. -/
  | waiting (r : RoomId)
  /-- Past `Leave` or `CloseOut`. -/
  | left
  /-- Past the deferred `EndHandshakesFor`. -/
  | parted
  /-- Past the deferred `ClearSession`. -/
  | over

def headPhase (r : RoomId) : List (RoomOp D) → Phase D
  | .owned q :: _ => .acting r q
  | .clearSessionByClient v :: _ => .clearing r v
  | _ => .member r

def Pc.phase : Pc D → Phase D
  | .absent => .absent
  | .allowCreate | .claimCreate | .allowRedeem _ | .claimRedeem _ => .hello
  | .fail _ | .hsFull _ | .endHandshake _ | .closeOut => .turned
  | .createRoom => .creating
  | .addOwner r => .opening r
  | .redeemInvite _ => .redeeming
  | .getRoom _ r | .hasCapacity _ r | .ownerClient _ r | .newHandshake _ r _
  | .sendRedeemOk _ r _ _ | .sendInviteRedeemed _ r _ _ | .hsLoop r _ | .hsRelay r _ _ _ _
  | .hsSend r _ _ _ | .hsEnter r _ => .joiner r
  | .member r todo => headPhase r todo
  | .leave r => .leaving r
  | .leaveClose r _ => .closing r
  | .leaveWait r => .waiting r
  | .clearSession | .awaitDone | .deferHandshakes => .left
  | .deferSession => .parted
  | .deferBytes _ | .exited => .over

@[ext] structure Floor (D : Type) where
  phase      : ClientId → Phase D
  panicked   : ClientId → Bool
  /-- The outbound channel is closed. -/
  shut       : ClientId → Bool
  session    : ClientId → String
  room       : RoomId → Room
  rooms      : List RoomId
  invites    : Handle → Option Invite
  handshakes : Handle → Option Handshake
  sessions   : AList (fun _ : String => SessionClaim)
  drawn      : List Handle
  log        : List Event

def State.floor (s : State D) : Floor D where
  phase c := (s.conns c).pc.phase
  panicked c := (s.conns c).panicked
  shut c := (s.conns c).outClosed
  session c := (s.conns c).session
  room := s.room
  rooms := s.rooms
  invites := s.invites
  handshakes := s.handshakes
  sessions := s.sessions
  drawn := s.drawn
  log := s.log

namespace Floor

def goto (f : Floor D) (c : ClientId) (p : Phase D) : Floor D :=
  { f with phase := Function.update f.phase c p }

def setRoom (f : Floor D) (r : RoomId) (rm : Room) : Floor D :=
  { f with room := Function.update f.room r rm }

def close (f : Floor D) (c : ClientId) : Floor D :=
  { f with shut := Function.update f.shut c true }

def note (f : Floor D) (e : Event) : Floor D := { f with log := e :: f.log }

/-- `OwnerClient` on the floor. -/
def ownerClient (f : Floor D) (r : RoomId) : Option ClientId :=
  if (f.room r).closed then none
  else (f.room r).ownerID.filter fun o => o ∈ (f.room r).members

theorem ownerClient_eq_some {f : Floor D} {r : RoomId} {o : ClientId} :
    f.ownerClient r = some o ↔
      (f.room r).closed = false ∧ (f.room r).ownerID = some o ∧ o ∈ (f.room r).members := by
  simp [ownerClient, Option.filter_eq_some_iff]

/-- The room after `Add`. -/
def addRoom (rm : Room) (c : ClientId) (t : Int) : Room :=
  { rm with
    ownerID := if rm.members = [] then some c else rm.ownerID
    members := if c ∈ rm.members then rm.members else rm.members ++ [c]
    lastActivity := t }

/-- The room after a member is dropped. -/
def dropRoom (rm : Room) (c : ClientId) (t : Int) : Room :=
  { rm with members := rm.members.filter (· ≠ c), lastActivity := t }

/-- The room after the first section of `Close`. -/
def closeRoom (rm : Room) (reason : Option Reason) : Room :=
  { rm with
    closed := true, members := [], ownerID := none, closing := .removeRoom reason rm.members }

end Floor

/-! ## What a label does to others -/

/-- `ClearSessionByClient` in `RemoveMember`. -/
def RoomOp.clears : RoomOp D → Option ClientId
  | .clearSessionByClient v => some v
  | _ => none

/-- `ClearSession` in `runOwner`, `runJoiner` and the deferred call of `session`. -/
def Pc.clears (c : ClientId) : Pc D → Option ClientId
  | .clearSession | .deferSession => some c
  | .member _ (op :: _) => op.clears
  | _ => none

/-- `ClearSessionByClient` in `Close`. -/
def Closing.clears (pick : ClientId) : Closing → Option ClientId
  | .next _ (_ :: _) => some pick
  | _ => none

/-- The client on whose behalf a label releases a claim. -/
def State.releases (s : State D) : Act D → Option ClientId
  | .run c _ _ => (s.conns c).pc.clears c
  | .closing r pick => (s.room r).closing.clears pick
  | _ => none

/-- `Client.Send` of a member's handler. -/
def RoomOp.sends : RoomOp D → Option ClientId
  | .send dst _ => some dst
  | _ => none

/-- The client whose channel the operation in hand sends on without a lock. -/
def Pc.sends (c : ClientId) : Pc D → Option ClientId
  | .sendRedeemOk _ _ _ _ | .hsFull _ | .fail _ => some c
  | .sendInviteRedeemed _ _ owner _ => some owner
  | .hsSend _ _ dst _ => some dst
  | .member _ (op :: _) => op.sends
  | _ => none

/-- The client a label sends to without a lock. -/
def State.sends (s : State D) : Act D → Option ClientId
  | .run c _ _ => (s.conns c).pc.sends c
  | _ => none

/-- The owner `NewHandshake` is called with. -/
def Pc.pairs : Pc D → Option ClientId
  | .newHandshake _ _ owner => some owner
  | _ => none

/-- The owner a label hands a new handshake to. -/
def State.pairs (s : State D) : Act D → Option ClientId
  | .run c _ _ => (s.conns c).pc.pairs
  | _ => none

/-- Who may send to whom without a lock, and the clients whose claim may be released and those who
may be handed a new handshake. -/
structure May where
  send    : ClientId → ClientId → Prop
  release : ClientId → Prop
  pair    : ClientId → Prop

def State.may (s : State D) (a : Act D) : May where
  send c dst := (∃ draw allow, a = .run c draw allow) ∧ s.sends a = some dst
  release c := s.releases a = some c
  pair o := s.pairs a = some o

theorem State.may_send {s : State D} {c dst : ClientId} {draw : Handle} {allow : Bool}
    (h : s.sends (.run c draw allow) = some dst) : (s.may (.run c draw allow)).send c dst :=
  ⟨⟨draw, allow, rfl⟩, h⟩

open Floor State in
/-- One move of the floor. -/
inductive Move (cfg : Config) (may : May) : Floor D → Floor D → Prop
  /-- Any operation that stays inside a phase and touches no shared map. -/
  | idle (f) : Move cfg may f f
  /-- A chat message resets the idle clock of its room. -/
  | touch (f) (r : RoomId) (t : Int) :
      Move cfg may f (f.setRoom r { f.room r with lastActivity := t })
  | connect (f) (c : ClientId) (sid : String) (p : Phase D) (hc : c ∉ f.drawn)
      (hp : p = .hello ∨ p = .turned) :
      Move cfg may f { f.goto c p with
        panicked := Function.update f.panicked c false
        shut := Function.update f.shut c false
        session := Function.update f.session c sid
        drawn := c :: f.drawn }
  | turn (f) (c : ClientId)
      (hp : f.phase c = .hello ∨ f.phase c = .redeeming ∨ ∃ r, f.phase c = .joiner r) :
      Move cfg may f (f.goto c .turned)
  | claim (f) (c : ClientId) (p : Phase D) (hc : f.phase c = .hello)
      (hp : p = .creating ∨ p = .redeeming)
      (hfree : f.session c ≠ "" → (f.sessions.lookup (f.session c)) = none) :
      Move cfg may f { f.goto c p with
        sessions := if f.session c = "" then f.sessions
          else f.sessions.insert (f.session c) { client := c } }
  | createRoom (f) (c : ClientId) (r : RoomId) (t : Int) (hc : f.phase c = .creating)
      (hr : r ∉ f.drawn) :
      Move cfg may f ({ (f.goto c (.opening r)).setRoom r { lastActivity := t } with
        rooms := r :: f.rooms, drawn := r :: f.drawn }.note (.created c r))
  | add (f) (c : ClientId) (r : RoomId) (t : Int)
      (hc : f.phase c = .opening r ∨ f.phase c = .joiner r) (hopen : (f.room r).closed = false)
      (hcap : (f.room r).members.length < cfg.maxRoomSize) :
      Move cfg may f (((f.goto c (.member r)).setRoom r (addRoom (f.room r) c t)).note (.added c r))
  | addFailed (f) (c : ClientId) (r : RoomId) (hc : f.phase c = .opening r)
      (hno : (f.room r).closed = true ∨ cfg.maxRoomSize ≤ (f.room r).members.length) :
      Move cfg may f (f.goto c (.member r))
  | redeem (f) (c : ClientId) (tok : Handle) (inv : Invite) (now : Int)
      (hc : f.phase c = .redeeming) (htok : f.invites tok = some inv)
      (hexp : now ≤ inv.expiresAt) :
      Move cfg may f ({ f.goto c (.joiner inv.room) with
        invites := Function.update f.invites tok none }.note (.redeemed c inv.room tok now))
  | redeemExpired (f) (c : ClientId) (tok : Handle) (hc : f.phase c = .redeeming) :
      Move cfg may f { f.goto c .turned with invites := Function.update f.invites tok none }
  | newHandshake (f) (c o : ClientId) (r : RoomId) (h : Handle) (hc : f.phase c = .joiner r)
      (hh : h ∉ f.drawn) (hmay : may.pair o) :
      Move cfg may f { f with
        handshakes := Function.update f.handshakes h (some ⟨r, c, o⟩), drawn := h :: f.drawn }
  | endHandshake (f) (h : Handle) :
      Move cfg may f { f with handshakes := Function.update f.handshakes h none }
  | checkFailed (f) (c : ClientId) (r : RoomId) (o : ClientId) (hc : f.phase c = .member r)
      (ho : f.ownerClient r = some o) :
      Move cfg may f (f.note (.inviteChecked c r o))
  | checkInvite (f) (c : ClientId) (r : RoomId) (hc : f.phase c = .member r)
      (ho : f.ownerClient r = some c) :
      Move cfg may f ((f.goto c (.acting r .invite)).note (.inviteChecked c r c))
  | check (f) (c : ClientId) (r : RoomId) (q : OwnerReq D) (hq : q ≠ .invite)
      (hc : f.phase c = .member r) (ho : f.ownerClient r = some c) :
      Move cfg may f (f.goto c (.acting r q))
  | invite (f) (c : ClientId) (r : RoomId) (tok : Handle) (exp : Int)
      (hc : f.phase c = .acting r .invite) (htok : tok ∉ f.drawn) :
      Move cfg may f ({ f.goto c (.member r) with
        invites := Function.update f.invites tok (some ⟨r, exp⟩)
        drawn := tok :: f.drawn }.note (.inviteCreated c r tok exp))
  /-- A request that leaves the floor as it is: a rekey, a roster, a refused transfer or kick. -/
  | actDone (f) (c : ClientId) (r : RoomId) (q : OwnerReq D) (hc : f.phase c = .acting r q) :
      Move cfg may f (f.goto c (.member r))
  | setOwner (f) (c : ClientId) (r : RoomId) (target : ClientId) (t : Int)
      (hc : f.phase c = .acting r (.transfer target)) (hopen : (f.room r).closed = false)
      (hm : target ∈ (f.room r).members) :
      Move cfg may f ((f.goto c (.member r)).setRoom r
        { f.room r with ownerID := some target, lastActivity := t })
  | kick (f) (c : ClientId) (r : RoomId) (v : ClientId) (t : Int)
      (hc : f.phase c = .acting r (.kick v)) (hopen : (f.room r).closed = false)
      (hm : v ∈ (f.room r).members) (hv : (f.room r).ownerID ≠ some v) :
      Move cfg may f ((((f.goto c (.clearing r v)).close v).setRoom r
        (dropRoom (f.room r) v t)).note (.kicked v r))
  | kickCleared (f) (c : ClientId) (r : RoomId) (v : ClientId)
      (m : AList (fun _ : String => SessionClaim)) (hc : f.phase c = .clearing r v)
      (hm : ClearsFor (f.session v) v f.sessions m) (hmay : may.release v) :
      Move cfg may f { f.goto c (.member r) with sessions := m }
  | setSessionRoom (f) (sid : String) (sc : SessionClaim) (r : RoomId)
      (h : f.sessions.lookup sid = some sc) :
      Move cfg may f { f with sessions := f.sessions.insert sid { sc with room := some r } }
  | leave (f) (c : ClientId) (r : RoomId) (hc : f.phase c = .member r) :
      Move cfg may f (f.goto c (.leaving r))
  | leaveGone (f) (c : ClientId) (r : RoomId) (hc : f.phase c = .leaving r)
      (hm : c ∉ (f.room r).members ∨ (f.room r).closed = true) :
      Move cfg may f (f.goto c .left)
  | leaveOwner (f) (c : ClientId) (r : RoomId) (hc : f.phase c = .leaving r)
      (hopen : (f.room r).closed = false) (ho : (f.room r).ownerID = some c) :
      Move cfg may f (f.goto c (.closing r))
  | leaveMember (f) (c : ClientId) (r : RoomId) (t : Int) (p : Phase D)
      (hc : f.phase c = .leaving r) (hopen : (f.room r).closed = false)
      (hm : c ∈ (f.room r).members) (ho : (f.room r).ownerID ≠ some c)
      (hp : p = .left ∨ (p = .closing r ∧ (f.room r).members.filter (· ≠ c) = [])) :
      Move cfg may f (((f.goto c p).close c).setRoom r (dropRoom (f.room r) c t))
  | closeSkip (f) (c : ClientId) (r : RoomId) (hc : f.phase c = .closing r)
      (hcl : (f.room r).closed = true) :
      Move cfg may f (f.goto c .left)
  | closeBegin (f) (c : ClientId) (r : RoomId) (reason : Option Reason)
      (hc : f.phase c = .closing r) (hopen : (f.room r).closed = false) :
      Move cfg may f ((f.goto c (.waiting r)).setRoom r (closeRoom (f.room r) reason))
  | closeWaited (f) (c : ClientId) (r : RoomId) (hc : f.phase c = .waiting r)
      (hr : (f.room r).closing = .done) :
      Move cfg may f (f.goto c .left)
  /-- The janitor or `Shutdown` closes a room. -/
  | closeExternal (f) (r : RoomId) (reason : Option Reason) (hr : r ∈ f.drawn)
      (hopen : (f.room r).closed = false) :
      Move cfg may f ((f.setRoom r (closeRoom (f.room r) reason)).note (.reaped r))
  | removeRoom (f) (r : RoomId) (reason : Option Reason) (ms : List ClientId)
      (hr : (f.room r).closing = .removeRoom reason ms) :
      Move cfg may f { f.setRoom r { f.room r with closing := .dropInvites reason ms } with
        rooms := f.rooms.filter (· ≠ r) }
  | dropInvites (f) (r : RoomId) (reason : Option Reason) (ms : List ClientId)
      (hr : (f.room r).closing = .dropInvites reason ms) :
      Move cfg may f { f.setRoom r { f.room r with closing := .next reason ms } with
        invites := fun t => (f.invites t).filter fun inv => inv.room ≠ r }
  | closeNext (f) (r : RoomId) (reason : Option Reason) (ms : List ClientId) (c : ClientId)
      (k : Closing) (m : AList (fun _ : String => SessionClaim))
      (hr : (f.room r).closing = .next reason ms) (hc : c ∈ ms)
      (hk : k.pending = c :: ms.filter (· ≠ c)) (hk' : k ≠ .no)
      (hm : ClearsFor (f.session c) c f.sessions m) (hmay : may.release c) :
      Move cfg may f { f.setRoom r { f.room r with closing := k } with sessions := m }
  | closeNotice (f) (r : RoomId) (reason : Reason) (ms : List ClientId) (c : ClientId)
      (hr : (f.room r).closing = .notice reason c ms) :
      Move cfg may f (f.setRoom r { f.room r with closing := .closeOut (some reason) c ms })
  | closeMember (f) (r : RoomId) (reason : Option Reason) (ms : List ClientId) (c : ClientId)
      (hr : (f.room r).closing = .closeOut reason c ms) :
      Move cfg may f ((f.close c).setRoom r { f.room r with closing := .next reason ms })
  | closeDone (f) (r : RoomId) (reason : Option Reason)
      (hr : (f.room r).closing = .next reason []) :
      Move cfg may f (f.setRoom r { f.room r with closing := .done })
  | closeOut (f) (c : ClientId) (hc : f.phase c = .turned) :
      Move cfg may f ((f.goto c .left).close c)
  | panic (f) (c dst : ClientId)
      (hc : f.phase c = .turned ∨ (∃ r, f.phase c = .joiner r) ∨ ∃ r, f.phase c = .member r)
      (hd : f.shut dst = true) (hmay : may.send c dst) :
      Move cfg may f ({ f.goto c .left with
        panicked := Function.update f.panicked c true }.note (.sendClosed dst))
  | clearSession (f) (c : ClientId) (m : AList (fun _ : String => SessionClaim))
      (hc : f.phase c = .left) (hm : ClearsFor (f.session c) c f.sessions m)
      (hmay : may.release c) :
      Move cfg may f { f with sessions := m }
  | endHandshakesFor (f) (c : ClientId) (hc : f.phase c = .left) :
      Move cfg may f { f.goto c .parted with
        handshakes := fun h =>
          (f.handshakes h).filter fun hs => ¬ (hs.joiner = c ∨ hs.owner = c) }
  | deferSession (f) (c : ClientId) (m : AList (fun _ : String => SessionClaim))
      (hc : f.phase c = .parted) (hm : ClearsFor (f.session c) c f.sessions m)
      (hmay : may.release c) :
      Move cfg may f { f.goto c .over with sessions := m }
  | gcInvites (f) (now : Int) :
      Move cfg may f { f with
        invites := fun t => (f.invites t).filter fun inv => ¬ now > inv.expiresAt }

end E2EAnon.Relay
