import Mathlib.Data.Finset.Insert
import Mathlib.Data.List.AList
import E2EAnon.Wire

/-!
# The relay's state (`server/internal/relay`, `server/internal/httpapi/server.go`)

| here | there |
| --- | --- |
| `Config`            | `config.Config`, the fields the relay reads |
| `Conn`              | `Client` (`client.go:21`) with the state of its goroutines: `session` (`server.go:114`) and `WritePump` |
| `Room`, `Closing`   | `Room` (`room.go:21`); how far `Close` (`room.go:229`) has got |
| `State`             | `Hub` (`hub.go:15`) with the heap of `Client`s and `Room`s |
| `Pc`, `RoomOp`      | where a connection's goroutine is: the atomic operations still to run for the frame it handles |
| `Janitor`, `Shutdown` | `StartJanitor` (`hub.go:197`), `Shutdown` (`hub.go:232`) |

One atomic operation is one section under a room's or the hub's lock, one channel operation or one
`atomic.Int64` addition. Ids are drawn by `crypto/rand` (`ids.go:30`); the model takes every drawn
id to be new, so a member id stands for its `*Client` and a room id for its `*Room`.
-/

namespace E2EAnon.Relay

abbrev ClientId := Handle
abbrev RoomId := Handle

/-- `config.Load` refuses a `MAX_ROOM_SIZE` below 1 (`config.go:70`). -/
structure Config where
  maxRoomSize      : Nat
  maxRoomSize_pos  : 1 ≤ maxRoomSize
  inviteCodeTTL    : Int
  roomIdleTimeout  : Int
  maxFileBytes     : Int64
  maxInflightBytes : Int64

/-- `outboundBuffer` (`client.go:15`). -/
def outboundBuffer : Nat := 32

/-! ## Control state of a connection -/

/-- The requests only the owner may make; each is checked first (`OwnerClient`) and carried out in
a later section. -/
inductive OwnerReq (D : Type)
  | invite
  | rekey (target : Handle) (data : D)
  | transfer (target : Handle)
  | kick (target : Handle)
  | roster (data : D)
deriving DecidableEq

/-- The atomic operations of a room member's goroutine. -/
inductive RoomOp (D : Type)
  /-- `hub.SetSessionRoom(sessionID, room.ID())`. -/
  | setSessionRoom
  /-- `room.SnapshotMembers()`, the argument of the welcome that follows. -/
  | snapshotMembers (role : Role)
  /-- `hub.EndHandshake`. -/
  | endHandshake (h : Handle)
  /-- `room.BroadcastPresence()`. -/
  | broadcastPresence
  /-- `Client.Send`, without a lock. -/
  | send (dst : ClientId) (m : ServerMsg D)
  /-- `room.Relay`. -/
  | relay (body : D)
  /-- `room.OwnerClient()` of a request. -/
  | ownerCheck (q : OwnerReq D)
  /-- The request itself, after its check. -/
  | owned (q : OwnerReq D)
  /-- `hub.ClearSessionByClient` at the end of `RemoveMember`. -/
  | clearSessionByClient (v : ClientId)
  /-- `hub.GetHandshake` of `relayHandshake`. -/
  | getHandshake (type : ServerType) (h : Handle) (data : D)
  /-- `client.FileTransfers[t] = 0`. -/
  | fileStart (t : String) (keyId data : D)
  /-- `client.FileTransfers[t]` and the per-file cap. -/
  | fileChunk (t : String) (index : Int) (data : D)
  /-- `hub.AddInflight(size)` and the comparison of its result. -/
  | addInflight (t : String) (cur : Int64) (index : Int) (data : D)
  /-- `client.FileTransfers[t] = cur + size`. -/
  | accept (t : String) (cur : Int64) (index : Int) (data : D)
  /-- `hub.AddInflight(-size)` of a refused chunk. -/
  | rollback (size : Int64)
  /-- `hub.AddInflight(-bytes)` of `finishFile`. -/
  | release (t : String)
  /-- `delete(client.FileTransfers, t)`. -/
  | forget (t : String)
  /-- `room.BroadcastExcept` of a file frame. -/
  | broadcastFile (m : ServerMsg D)
deriving DecidableEq

/-- Where a connection's goroutine is. -/
inductive Pc (D : Type)
  | absent
  -- `runOwner`
  | allowCreate
  | claimCreate
  | createRoom
  | addOwner (r : RoomId)
  -- `runJoiner`
  | allowRedeem (tok : Handle)
  | claimRedeem (tok : Handle)
  | redeemInvite (tok : Handle)
  | getRoom (tok : Handle) (r : RoomId)
  | hasCapacity (tok : Handle) (r : RoomId)
  | ownerClient (tok : Handle) (r : RoomId)
  | newHandshake (tok : Handle) (r : RoomId) (owner : ClientId)
  | sendRedeemOk (tok : Handle) (r : RoomId) (owner : ClientId) (h : Handle)
  | sendInviteRedeemed (tok : Handle) (r : RoomId) (owner : ClientId) (h : Handle)
  -- `handshakeLoop`
  | hsLoop (r : RoomId) (h : Handle)
  | hsRelay (r : RoomId) (h : Handle) (type : ServerType) (h' : Handle) (data : D)
  | hsSend (r : RoomId) (h : Handle) (dst : ClientId) (m : ServerMsg D)
  | hsEnter (r : RoomId) (h : Handle)
  | hsFull (h : Handle)
  | endHandshake (h : Handle)
  -- `fail` and the other early returns
  | fail (m : ServerMsg D)
  | closeOut
  -- `memberLoop`: the rest of the frame in hand; `[]` is the read at the head of the loop
  | member (r : RoomId) (todo : List (RoomOp D))
  -- `room.Leave` and what follows it
  | leave (r : RoomId)
  | leaveClose (r : RoomId) (reason : Option Reason)
  | leaveWait (r : RoomId)
  | clearSession
  | awaitDone
  -- the deferred calls of `session`
  | deferHandshakes
  | deferSession
  | deferBytes (rest : List Int64)
  | exited
deriving DecidableEq

/-- `Client`, with the session id of its hello, its socket and its goroutines. -/
structure Conn (D : Type) where
  nick          : String := ""
  session       : String := ""
  pc            : Pc D := .absent
  /-- The buffered channel `out`. -/
  out           : List (ServerMsg D) := []
  outClosed     : Bool := false
  sockClosed    : Bool := false
  /-- `done` is closed: the write pump has exited. -/
  pumpDone      : Bool := false
  /-- The goroutine unwound through a panic. -/
  panicked      : Bool := false
  fileTransfers : AList (fun _ : String => Int64) := ∅

/-! ## Rooms -/

/-- Progress of `Close` after its first critical section. It runs in the goroutine of the caller,
which waits for it, and happens at most once for a room. -/
inductive Closing
  | no
  | removeRoom (reason : Option Reason) (members : List ClientId)
  | dropInvites (reason : Option Reason) (members : List ClientId)
  | next (reason : Option Reason) (members : List ClientId)
  | notice (reason : Reason) (c : ClientId) (members : List ClientId)
  | closeOut (reason : Option Reason) (c : ClientId) (members : List ClientId)
  | done
deriving DecidableEq, Repr

/-- The detached members whose channel `Close` has still to close. -/
def Closing.pending : Closing → List ClientId
  | .removeRoom _ ms | .dropInvites _ ms | .next _ ms => ms
  | .notice _ c ms | .closeOut _ c ms => c :: ms
  | .no | .done => []

structure Room where
  members      : List ClientId := []
  ownerID      : Option ClientId := none
  closed       : Bool := false
  lastActivity : Int := 0
  closing      : Closing := .no
deriving DecidableEq, Repr

/-! ## The hub -/

structure Invite where
  room      : RoomId
  expiresAt : Int
deriving DecidableEq, Repr

structure Handshake where
  room   : RoomId
  joiner : ClientId
  owner  : ClientId
deriving DecidableEq, Repr

/-- `Handshake.Peer` (`invites.go:116`). -/
def Handshake.peer (hs : Handshake) (c : ClientId) : Option ClientId :=
  if hs.joiner = c then some hs.owner else if hs.owner = c then some hs.joiner else none

structure SessionClaim where
  client : ClientId
  room   : Option RoomId := none
deriving DecidableEq, Repr

inductive Janitor
  | idle
  | scan (now : Int) (todo : List RoomId)
  | idleFor (now : Int) (r : RoomId) (todo : List RoomId)
  | close (now : Int) (r : RoomId) (todo : List RoomId)
  | wait (now : Int) (r : RoomId) (todo : List RoomId)
  | gcInvites (now : Int)
deriving DecidableEq, Repr

inductive Shutdown
  | idle
  | run (todo : List RoomId)
  | wait (r : RoomId) (todo : List RoomId)
deriving DecidableEq, Repr

/-- History of a run; no transition reads it. -/
inductive Event
  /-- `c`'s `CreateRoom` returned `r`. -/
  | created (c : ClientId) (r : RoomId)
  /-- `c`'s request for an invite found `owner` as the room's owner. -/
  | inviteChecked (c : ClientId) (r : RoomId) (owner : ClientId)
  | inviteCreated (c : ClientId) (r : RoomId) (tok : Handle) (exp : Int)
  /-- `c`'s `RedeemInvite` returned `r` at clock reading `now`. -/
  | redeemed (c : ClientId) (r : RoomId) (tok : Handle) (now : Int)
  | added (c : ClientId) (r : RoomId)
  /-- `RemoveMember` removed `c`. -/
  | kicked (c : ClientId) (r : RoomId)
  /-- The janitor or `Shutdown` began to close `r`. -/
  | reaped (r : RoomId)
  /-- Runtime panic: `Send` on the closed channel of `c`. -/
  | sendClosed (c : ClientId)
  /-- Runtime panic: the closed channel of `c` closed again. -/
  | closeClosed (c : ClientId)
deriving DecidableEq, Repr

/-- The runtime panics. -/
def Event.crash : Event → Bool
  | .sendClosed _ | .closeClosed _ => true
  | _ => false

structure State (D : Type) where
  conns      : ClientId → Conn D := fun _ => {}
  /-- The connections accepted so far. -/
  started    : Finset ClientId := ∅
  room       : RoomId → Room := fun _ => {}
  /-- The keys of `hub.rooms`. -/
  rooms      : List RoomId := []
  invites    : Handle → Option Invite := fun _ => none
  handshakes : Handle → Option Handshake := fun _ => none
  sessions   : AList (fun _ : String => SessionClaim) := ∅
  inflight   : Int64 := 0
  /-- What the clock reads now. -/
  now        : Int := 0
  /-- Ids drawn so far. -/
  drawn      : List Handle := []
  janitor    : Janitor := .idle
  shutdown   : Shutdown := .idle
  log        : List Event := []

/-- No handler has panicked. -/
def State.Calm {D : Type} (s : State D) : Prop := ∀ e ∈ s.log, e.crash = false

instance {D : Type} (s : State D) : Decidable s.Calm := inferInstanceAs (Decidable (∀ e ∈ s.log, _))

end E2EAnon.Relay
