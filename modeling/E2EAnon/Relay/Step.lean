import E2EAnon.Lib.Machine
import E2EAnon.Relay.Ops

/-!
# The goroutines of the relay (`server.go`)

`step` runs one atomic operation of one goroutine. A label (`Act`) names the goroutine and carries
what the environment chooses: the frame read, a drawn id, the rate limiter's answer, the member a
map iteration visits next, the clock.

| here | there |
| --- | --- |
| `helloPc`         | the dispatch of `session` (`server.go:141-150`) |
| `memberFrame`     | the dispatch of `memberLoop` (`server.go:294-319`) and of `handleFile` (`server.go:331-358`) |
| `runOp`           | the bodies of the handlers `memberLoop` calls (`server.go:327-448`) |
| `runPc`           | `runOwner`, `runJoiner`, `handshakeLoop`, the deferred calls of `session` |
| `runClosing`      | the rest of `Close` (`room.go:240-254`), in whichever goroutine called it |
| `runJanitor`, `runShutdown` | `StartJanitor` (`hub.go:197`), `Shutdown` (`hub.go:232`) |

The rate limiter has no part in what follows: its answer is chosen by the environment.
-/

namespace E2EAnon.Relay

variable {D : Type}

/-- Labels. -/
inductive Act (D : Type)
  /-- A connection is accepted, given the member id `c`, and its hello is read. -/
  | connect (c : ClientId) (hello : ClientMsg D)
  /-- `wsjson.Read` of `c`'s loop returns a frame. -/
  | frame (c : ClientId) (m : ClientMsg D)
  /-- `wsjson.Read` of `c`'s loop fails: disconnect, malformed or oversized frame. -/
  | readErr (c : ClientId)
  /-- The next operation of `c`'s goroutine. -/
  | run (c : ClientId) (draw : Handle) (allow : Bool)
  /-- The write pump takes a message off the channel. -/
  | pump (c : ClientId)
  /-- The write pump exits: the channel is closed and drained, or a write failed. -/
  | pumpExit (c : ClientId)
  /-- The socket closes: the network, or a missed heartbeat. -/
  | drop (c : ClientId)
  /-- The next operation of a running `Close`; `pick` is the member its loop visits next. -/
  | closing (r : RoomId) (pick : ClientId)
  | janitor (pick : RoomId)
  | shutdown (pick : RoomId)
  | clock (t : Int)
deriving DecidableEq

/-! ## Text (`sanitizeNick`, `server.go:502`) -/

def maxNickLen : Nat := 64

/-- `unicode.IsSpace`. -/
def isSpace (c : Char) : Bool :=
  c.toNat ∈ [9, 10, 11, 12, 13, 32, 0x85, 0xA0, 0x1680, 0x2028, 0x2029, 0x202F, 0x205F, 0x3000]
    || (0x2000 ≤ c.toNat && c.toNat ≤ 0x200A)

def sanitizeNick (s : String) : String :=
  let r := ((s.toList.dropWhile isSpace).reverse.dropWhile isSpace).reverse
  if r = [] then "anon" else String.ofList (r.take maxNickLen)

/-! ## Messages the relay makes -/

def errorMsg (text : String) (reason : Reason) : ServerMsg D :=
  { type := .error, error := some text, reason := some reason }

def fileMsg (type : ServerType) (t : String) (c : ClientId) : ServerMsg D :=
  { type, transfer := some t, fromId := some c }

/-- The reply to a request of a client that is not the owner; rekeys and rosters get none. -/
def refusal : OwnerReq D → Option (ServerMsg D)
  | .invite => some (errorMsg "only the owner can invite" .notOwner)
  | .transfer _ => some (errorMsg "only the owner can transfer ownership" .notOwner)
  | .kick _ => some (errorMsg "only the owner can kick" .notOwner)
  | .rekey _ _ | .roster _ => none

/-! ## Frames -/

def helloPc : ClientMsg D → Pc D
  | .create _ _ => .allowCreate
  | .redeem tok _ _ => .allowRedeem tok
  | _ => .fail (errorMsg "expected create or redeem" .badRequest)

def helloNick : ClientMsg D → String
  | .create nick _ | .redeem _ nick _ => sanitizeNick nick
  | _ => sanitizeNick ""

def helloSession : ClientMsg D → String
  | .create _ session | .redeem _ _ session => session
  | _ => ""

/-- `abortFile` (`server.go:363`). -/
def abortFile (c : ClientId) (t text : String) : List (RoomOp D) :=
  [.release t,
    .send c { (errorMsg text .fileRejected) with transfer := some t },
    .broadcastFile (fileMsg .fileAbort t c)]

/-- The operations `memberLoop` runs for a frame; `none` is `leave`. -/
def memberFrame (c : ClientId) : ClientMsg D → Option (List (RoomOp D))
  | .msg body => some [.relay body]
  | .invite => some [.ownerCheck .invite]
  | .pake h d => some [.getHandshake .pake h d]
  | .keyDeliver h d => some [.getHandshake .keyDeliver h d]
  | .memberKey h d => some [.getHandshake .memberKey h d]
  | .rekey t d => some [.ownerCheck (.rekey t d)]
  | .transfer t => some [.ownerCheck (.transfer t)]
  | .kick t => some [.ownerCheck (.kick t)]
  | .roster d => some [.ownerCheck (.roster d)]
  | .fileStart t k d => some (if t = "" then [] else [.fileStart t k d])
  | .fileChunk t i d => some (if t = "" then [] else [.fileChunk t i d])
  | .fileEnd t =>
    some (if t = "" then [] else [.release t, .broadcastFile (fileMsg .fileEnd t c)])
  | .fileAbort t =>
    some (if t = "" then [] else [.release t, .broadcastFile (fileMsg .fileAbort t c)])
  | .leave => none
  | .create _ _ | .redeem _ _ _ | .enter _ | .unknown => some []

/-- What `handshakeLoop` does with a frame. -/
def joinerFrame (r : RoomId) (h : Handle) : ClientMsg D → Pc D
  | .pake h' d => .hsRelay r h .pake h' d
  | .memberKey h' d => .hsRelay r h .memberKey h' d
  | .enter h' => if h' = h then .hsEnter r h else .hsLoop r h
  | .leave => .endHandshake h
  | _ => .hsLoop r h

/-- A read loop takes a frame. -/
def readFrame (c : ClientId) (m : ClientMsg D) : Pc D → Option (Pc D)
  | .hsLoop r h => some (joinerFrame r h m)
  | .member r [] =>
    match memberFrame c m with
    | some todo => some (.member r todo)
    | none => some (.leave r)
  | _ => none

/-- A read loop's read fails. -/
def readFails : Pc D → Option (Pc D)
  | .hsLoop _ h => some (.endHandshake h)
  | .member r [] => some (.leave r)
  | _ => none

namespace State

/-! ## Drawing ids, sending, panicking and taking note -/

/-- `randID`: an id not drawn before. -/
def drawId (s : State D) (h : Handle) : Option (State D) :=
  if h ∈ s.drawn then none else some { s with drawn := h :: s.drawn }

/-- A send on `dst`'s closed channel panics: `c`'s goroutine unwinds to `session`'s deferred
calls. -/
def panic (s : State D) (c dst : ClientId) : State D :=
  (s.note (.sendClosed dst)).setConn c fun k =>
    { k with pc := .deferHandshakes, panicked := true }

/-- `Client.Send` without a lock, then on to `pc`. -/
def clientSend (s : State D) (c dst : ClientId) (m : ServerMsg D) (pc : Pc D) : State D :=
  if (s.conns dst).outClosed then s.panic c dst
  else (s.setConn dst (·.trySend m)).goto c pc

/-- History: a request for an invite, at its ownership check. -/
def noteCheck (s : State D) (c : ClientId) (r : RoomId) (q : OwnerReq D) : State D :=
  match q, s.ownerClient r with
  | .invite, some o => s.note (.inviteChecked c r o)
  | _, _ => s

theorem Quiet.noteCheck {s : State D} (c : ClientId) (r : RoomId) (q : OwnerReq D) :
    Quiet s (s.noteCheck c r q) := by
  unfold State.noteCheck
  split
  · exact note _
  · exact rfl

end State

/-! ## Member handlers -/

section
variable [Payload D]

def chunkSize (d : D) : Int64 := Int64.ofNat (Payload.len d)

/-- A privileged request after its check, with `k` the operations that follow. -/
def runOwned (cfg : Config) (s : State D) (c : ClientId) (draw : Handle) (r : RoomId)
    (k : List (RoomOp D)) : OwnerReq D → Option (State D)
  | .invite => do
    let exp := s.now + cfg.inviteCodeTTL
    let s ← s.drawId draw
    some (((s.createInvite cfg draw r).note (.inviteCreated c r draw exp)).goto c
      (.member r (.send c { type := .inviteCreated, token := some draw, ts := some exp } :: k)))
  | .rekey t d =>
    some ((s.sendTo r t { type := .rekey, data := some d }).goto c (.member r k))
  | .transfer t =>
    match s.setOwner r t with
    | some s => some (s.goto c (.member r (.broadcastPresence :: k)))
    | none => some (s.goto c (.member r k))
  | .kick t =>
    match s.removeMember r t .kicked with
    | some s => some (s.goto c (.member r (.clearSessionByClient t :: k)))
    | none => some (s.goto c (.member r k))
  | .roster d =>
    some ((s.broadcastExcept r c { type := .roster, data := some d }).goto c (.member r k))

/-- The operation `op` of `c`, a member of `r`, with `k` the operations that follow. -/
def runOp (cfg : Config) (s : State D) (c : ClientId) (draw : Handle) (r : RoomId)
    (k : List (RoomOp D)) : RoomOp D → Option (State D)
  | .setSessionRoom =>
    some ((s.setSessionRoom (s.conns c).session r).goto c (.member r k))
  | .snapshotMembers role =>
    some (s.goto c (.member r (.send c
      { type := .welcome, room := some r, memberId := some c, role := some role,
        members := some (s.membersInfo r) } :: k)))
  | .endHandshake h => some ((s.endHandshake h).goto c (.member r k))
  | .broadcastPresence => some ((s.broadcastPresence r).goto c (.member r k))
  | .send dst m => some (s.clientSend c dst m (.member r k))
  | .relay body => some ((s.relay r c body).goto c (.member r k))
  | .ownerCheck q =>
    if s.ownerClient r = some c then
      some ((s.noteCheck c r q).goto c (.member r (.owned q :: k)))
    else match refusal q with
      | some m => some ((s.noteCheck c r q).goto c (.member r (.send c m :: k)))
      | none => some ((s.noteCheck c r q).goto c (.member r k))
  | .owned q => runOwned cfg s c draw r k q
  | .clearSessionByClient v => some ((s.clearSessionByClient v).goto c (.member r k))
  | .getHandshake type h d =>
    match (s.handshakes h).bind (·.peer c) with
    | some p => some (s.goto c (.member r
        (.send p { type, handshake := some h, data := some d } :: k)))
    | none => some (s.goto c (.member r k))
  | .fileStart t kid d =>
    some ((s.setConn c fun n => { n with fileTransfers := n.fileTransfers.insert t 0 }).goto c
      (.member r (.broadcastFile { (fileMsg .fileStart t c) with
        keyId := some kid, data := some d, nick := some (s.conns c).nick } :: k)))
  | .fileChunk t i d =>
    match (s.conns c).fileTransfers.lookup t with
    | none => some (s.goto c (.member r k))
    | some cur =>
      if cur + chunkSize d > cfg.maxFileBytes then
        some (s.goto c (.member r (abortFile c t "file too large" ++ k)))
      else some (s.goto c (.member r (.addInflight t cur i d :: k)))
  | .addInflight t cur i d =>
    let s := s.addInflight (chunkSize d)
    if s.inflight > cfg.maxInflightBytes then
      some (s.goto c (.member r (.rollback (chunkSize d) ::
        (abortFile c t "server busy, too many transfers" ++ k))))
    else some (s.goto c (.member r (.accept t cur i d :: k)))
  | .accept t cur i d =>
    some ((s.setConn c fun n =>
      { n with fileTransfers := n.fileTransfers.insert t (cur + chunkSize d) }).goto c
      (.member r (.broadcastFile { (fileMsg .fileChunk t c) with
        index := some i, data := some d } :: k)))
  | .rollback size => some ((s.addInflight (-size)).goto c (.member r k))
  | .release t =>
    match (s.conns c).fileTransfers.lookup t with
    | some b => some ((s.addInflight (-b)).goto c (.member r (.forget t :: k)))
    | none => some (s.goto c (.member r k))
  | .forget t =>
    some ((s.setConn c fun n => { n with fileTransfers := n.fileTransfers.erase t }).goto c
      (.member r k))
  | .broadcastFile m => some ((s.broadcastExcept r c m).goto c (.member r k))

/-! ## The rest of a connection's goroutine -/

/-- The next operation of `c`'s goroutine; `none` while it waits. -/
def runPc (cfg : Config) (s : State D) (c : ClientId) (draw : Handle) (allow : Bool) :
    Pc D → Option (State D)
  -- `runOwner` (`server.go:153`)
  | .allowCreate =>
    some (s.goto c (if allow then .claimCreate
      else .fail (errorMsg "too many rooms; slow down" .rateLimited)))
  | .claimCreate =>
    match s.tryClaimSession (s.conns c).session c with
    | some s => some (s.goto c .createRoom)
    | none => some (s.goto c (.fail (errorMsg "you are already in a room" .inRoom)))
  | .createRoom => do
    let s ← s.drawId draw
    some (((({ s with rooms := draw :: s.rooms } : State D).setRoom draw
      { lastActivity := s.now }).note (.created c draw)).goto c (.addOwner draw))
  | .addOwner r =>
    -- the error of `Add` is ignored
    let pc := .member r [.setSessionRoom, .snapshotMembers .owner]
    match s.add cfg r c with
    | some s => some (s.goto c pc)
    | none => some (s.goto c pc)
  -- `runJoiner` (`server.go:189`)
  | .allowRedeem tok =>
    some (s.goto c (if allow then .claimRedeem tok
      else .fail (errorMsg "too many attempts; slow down" .rateLimited)))
  | .claimRedeem tok =>
    match s.tryClaimSession (s.conns c).session c with
    | some s => some (s.goto c (.redeemInvite tok))
    | none => some (s.goto c (.fail (errorMsg "you are already in a room" .inRoom)))
  | .redeemInvite tok =>
    match s.redeemInvite tok with
    | (s, some r) => some ((s.note (.redeemed c r tok s.now)).goto c (.getRoom tok r))
    | (s, none) => some (s.goto c (.fail (errorMsg "invalid or expired invite" .badInvite)))
  | .getRoom tok r =>
    some (s.goto c (if r ∈ s.rooms then .hasCapacity tok r
      else .fail (errorMsg "room no longer exists" .roomMissing)))
  | .hasCapacity tok r =>
    some (s.goto c (if s.hasCapacity cfg r then .ownerClient tok r
      else .fail (errorMsg "room is full" .roomFull)))
  | .ownerClient tok r =>
    match s.ownerClient r with
    | some o => some (s.goto c (.newHandshake tok r o))
    | none => some (s.goto c (.fail (errorMsg "room unavailable" .roomMissing)))
  | .newHandshake tok r o => do
    let s ← s.drawId draw
    some ((s.newHandshake draw r c o).goto c (.sendRedeemOk tok r o draw))
  | .sendRedeemOk tok r o h =>
    some (s.clientSend c c { type := .redeemOk, handshake := some h, memberId := some c }
      (.sendInviteRedeemed tok r o h))
  | .sendInviteRedeemed tok r o h =>
    some (s.clientSend c o
      { type := .inviteRedeemed, handshake := some h, nick := some (s.conns c).nick,
        token := some tok, memberId := some c } (.hsLoop r h))
  -- `handshakeLoop` (`server.go:250`)
  | .hsRelay r h type h' d =>
    match (s.handshakes h').bind (·.peer c) with
    | some p => some (s.goto c (.hsSend r h p { type, handshake := some h', data := some d }))
    | none => some (s.goto c (.hsLoop r h))
  | .hsSend r h dst m => some (s.clientSend c dst m (.hsLoop r h))
  | .hsEnter r h =>
    match s.add cfg r c with
    | some s => some (s.goto c (.member r
        [.endHandshake h, .snapshotMembers .member, .broadcastPresence, .setSessionRoom]))
    | none => some (s.goto c (.hsFull h))
  | .hsFull h => some (s.clientSend c c (errorMsg "room is full" .roomFull) (.endHandshake h))
  | .endHandshake h => some ((s.endHandshake h).goto c .closeOut)
  | .fail m => some (s.clientSend c c m .closeOut)
  | .closeOut => some ((s.closeChan c).goto c .awaitDone)
  | .member r (op :: k) => runOp cfg s c draw r k op
  -- `Leave` (`room.go:199`)
  | .leave r =>
    if c ∉ (s.room r).members ∨ (s.room r).closed then some (s.goto c .clearSession)
    else if some c = (s.room r).ownerID then
      some (s.goto c (.leaveClose r (some .ownerLeft)))
    else
      let s := s.dropMember r c
      some (s.goto c (if (s.room r).members = [] then .leaveClose r none else .clearSession))
  | .leaveClose r reason =>
    match s.closeBegin r reason with
    | some s => some (s.goto c (.leaveWait r))
    | none => some (s.goto c .clearSession)
  | .leaveWait r => if (s.room r).closing = .done then some (s.goto c .clearSession) else none
  | .clearSession => some ((s.clearSession (s.conns c).session c).goto c .awaitDone)
  | .awaitDone => if (s.conns c).pumpDone then some (s.goto c .deferHandshakes) else none
  -- the deferred calls (`server.go:132-139`)
  | .deferHandshakes => some ((s.endHandshakesFor c).goto c .deferSession)
  | .deferSession =>
    some ((s.clearSession (s.conns c).session c).goto c
      (.deferBytes ((s.conns c).fileTransfers.entries.map Sigma.snd)))
  | .deferBytes (b :: rest) => some ((s.addInflight (-b)).goto c (.deferBytes rest))
  | .deferBytes [] => some (s.goto c .exited)
  | .absent | .hsLoop _ _ | .member _ [] | .exited => none

/-! ## The other goroutines -/

/-- `Close` after its first section (`room.go:240-254`). -/
def runClosing (s : State D) (r : RoomId) (pick : ClientId) : Closing → Option (State D)
  | .no | .done => none
  | .removeRoom reason ms =>
    some (({ s with rooms := s.rooms.filter (· ≠ r) } : State D).setClosing r
      (.dropInvites reason ms))
  | .dropInvites reason ms => some ((s.dropInvitesForRoom r).setClosing r (.next reason ms))
  | .next _ [] => some (s.setClosing r .done)
  | .next reason (m :: ms) =>
    if pick ∈ m :: ms then
      some ((s.clearSessionByClient pick).setClosing r
        (match reason with
          | some re => .notice re pick ((m :: ms).filter (· ≠ pick))
          | none => .closeOut none pick ((m :: ms).filter (· ≠ pick))))
    else none
  | .notice re c ms =>
    some ((s.sendLocked c { type := .roomClosed, reason := some re }).setClosing r
      (.closeOut (some re) c ms))
  | .closeOut reason c ms => some ((s.closeChan c).setClosing r (.next reason ms))

/-- `StartJanitor`; `pick` is the room its scan visits next. -/
def runJanitor (cfg : Config) (s : State D) (pick : RoomId) : Janitor → Option (State D)
  | .idle =>
    if cfg.roomIdleTimeout ≤ 0 then none else some { s with janitor := .scan s.now s.rooms }
  | .scan now [] => some { s with janitor := .gcInvites now }
  | .scan now (r :: rs) =>
    if pick ∈ r :: rs then
      let rest := (r :: rs).filter (· ≠ pick)
      some { s with
        janitor := if (s.room pick).members = [] then .idleFor now pick rest else (.scan now rest) }
    else none
  | .idleFor now r todo =>
    let idle := now - (s.room r).lastActivity
    some { s with
      janitor := if idle ≥ cfg.roomIdleTimeout then .close now r todo else (.scan now todo) }
  | .close now r todo =>
    match s.closeBegin r (some .idle) with
    | some s => some { (s.note (.reaped r)) with janitor := .wait now r todo }
    | none => some { s with janitor := .scan now todo }
  | .wait now r todo =>
    if (s.room r).closing = .done then some { s with janitor := .scan now todo } else none
  | .gcInvites now => some { (s.gcInvites now) with janitor := .idle }

def runShutdown (s : State D) (pick : RoomId) : Shutdown → Option (State D)
  | .idle => some { s with shutdown := .run s.rooms }
  | .run [] => none
  | .run (r :: rs) =>
    if pick ∈ r :: rs then
      match s.closeBegin pick (some .serverStop) with
      | some s =>
        some { (s.note (.reaped pick)) with shutdown := .wait pick ((r :: rs).filter (· ≠ pick)) }
      | none => some { s with shutdown := .run ((r :: rs).filter (· ≠ pick)) }
    else none
  | .wait r todo =>
    if (s.room r).closing = .done then some { s with shutdown := .run todo } else none

/-! ## The machine -/

/-- One atomic operation; `none` if the label is not enabled. -/
def step (cfg : Config) (s : State D) : Act D → Option (State D)
  | .connect c hello => do
    let s ← s.drawId c
    some (({ s with started := insert c s.started } : State D).setConn c fun _ =>
      { nick := helloNick hello, session := helloSession hello, pc := helloPc hello })
  | .frame c m =>
    if (s.conns c).sockClosed then none
    else (readFrame c m (s.conns c).pc).map (s.goto c)
  | .readErr c =>
    (readFails (s.conns c).pc).map fun pc => s.setConn c fun k => { k with pc, sockClosed := true }
  | .run c draw allow => runPc cfg s c draw allow (s.conns c).pc
  | .pump c =>
    if (s.conns c).pumpDone then none
    else match (s.conns c).out with
      | [] => none
      | _ :: rest => some (s.setConn c fun k => { k with out := rest })
  | .pumpExit c =>
    if (s.conns c).pumpDone then none
    else some (s.setConn c fun k => { k with pumpDone := true, sockClosed := true })
  | .drop c => some (s.setConn c fun k => { k with sockClosed := true })
  | .closing r pick => runClosing s r pick (s.room r).closing
  | .janitor pick => runJanitor cfg s pick s.janitor
  | .shutdown pick => runShutdown s pick s.shutdown
  | .clock t => some { s with now := t }

/-- The relay. -/
def relay (cfg : Config) : Lib.Machine (State D) (Act D) where
  init := {}
  step := step cfg

end

/-! ## A sample schedule

Client 1 opens room 100 and draws the invite 200; client 2 redeems it under handshake 300. -/

def sampleConfig : Config where
  maxRoomSize := 10
  maxRoomSize_pos := by decide
  inviteCodeTTL := 300
  roomIdleTimeout := 100
  maxFileBytes := 1000
  maxInflightBytes := 5000

/-- `n` operations of `c`'s goroutine. -/
def ops (c : ClientId) (n : Nat) : List (Act String) := List.replicate n (.run c 0 true)

def sampleOpen : List (Act String) :=
  .connect 1 (.create "ann" "s1") :: ops 1 2 ++ .run 1 100 true :: ops 1 4

def sampleInvite : List (Act String) :=
  .frame 1 .invite :: ops 1 1 ++ .run 1 200 true :: ops 1 1

def sampleRedeem : List (Act String) :=
  .connect 2 (.redeem 200 "bob" "s2") :: ops 2 6 ++ .run 2 300 true :: ops 2 2

/-- Client 2 enters the room. -/
def sampleEnter : List (Act String) := .frame 2 (.enter 300) :: ops 2 6

/-- Client 2 has entered client 1's room. -/
def sampleEntered : List (Act String) := sampleOpen ++ sampleInvite ++ sampleRedeem ++ sampleEnter

theorem entered_some : ((relay sampleConfig).stepsFrom {} sampleEntered).isSome = true := by
  decide +kernel

/-- The state with client 2 in its handshake. -/
def sample : State String :=
  ((relay sampleConfig).run (sampleOpen ++ sampleInvite ++ sampleRedeem)).get (by decide +kernel)

theorem sample_reach : (relay sampleConfig).Reach Lib.Machine.Any sample :=
  Lib.Machine.reach_of_run (Option.some_get _).symm

end E2EAnon.Relay
