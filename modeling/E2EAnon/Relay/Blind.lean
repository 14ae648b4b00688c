import E2EAnon.Lib.Hom
import E2EAnon.Relay.Step

/-!
# The relay is blind (`wsproto.go:1-6`)

"The server treats Body as an uninterpreted string and relays it verbatim." A map of payloads that
keeps their length can be applied before or after the relay (`blindness`): each step of each
goroutine commutes with it. `blind` is the case of the map that leaves nothing of a payload but its
length: two schedules whose frames differ in the payloads alone, each as long as the other, lead to
states that differ in them alone. So no payload has a say in who is in which room, who is told what,
what is refused, and in what order.
-/

namespace E2EAnon

variable {D D' : Type}

def ServerMsg.map (f : D → D') (m : ServerMsg D) : ServerMsg D' :=
  { m with body := m.body.map f, data := m.data.map f, keyId := m.keyId.map f }

def ClientMsg.map (f : D → D') : ClientMsg D → ClientMsg D'
  | .create nick session => .create nick session
  | .redeem token nick session => .redeem token nick session
  | .msg body => .msg (f body)
  | .leave => .leave
  | .invite => .invite
  | .pake h d => .pake h (f d)
  | .keyDeliver h d => .keyDeliver h (f d)
  | .memberKey h d => .memberKey h (f d)
  | .enter h => .enter h
  | .rekey t d => .rekey t (f d)
  | .transfer t => .transfer t
  | .kick t => .kick t
  | .roster d => .roster (f d)
  | .fileStart t k d => .fileStart t (f k) (f d)
  | .fileChunk t i d => .fileChunk t i (f d)
  | .fileEnd t => .fileEnd t
  | .fileAbort t => .fileAbort t
  | .unknown => .unknown

/-- A payload of which only the length is left. -/
instance : Payload Nat where
  len n := n

namespace Relay

def OwnerReq.map (f : D → D') : OwnerReq D → OwnerReq D'
  | .invite => .invite
  | .rekey t d => .rekey t (f d)
  | .transfer t => .transfer t
  | .kick t => .kick t
  | .roster d => .roster (f d)

def RoomOp.map (f : D → D') : RoomOp D → RoomOp D'
  | .setSessionRoom => .setSessionRoom
  | .snapshotMembers role => .snapshotMembers role
  | .endHandshake h => .endHandshake h
  | .broadcastPresence => .broadcastPresence
  | .send dst m => .send dst (m.map f)
  | .relay body => .relay (f body)
  | .ownerCheck q => .ownerCheck (q.map f)
  | .owned q => .owned (q.map f)
  | .clearSessionByClient v => .clearSessionByClient v
  | .getHandshake type h d => .getHandshake type h (f d)
  | .fileStart t k d => .fileStart t (f k) (f d)
  | .fileChunk t i d => .fileChunk t i (f d)
  | .addInflight t cur i d => .addInflight t cur i (f d)
  | .accept t cur i d => .accept t cur i (f d)
  | .rollback size => .rollback size
  | .release t => .release t
  | .forget t => .forget t
  | .broadcastFile m => .broadcastFile (m.map f)

def Pc.map (f : D → D') : Pc D → Pc D'
  | .absent => .absent
  | .allowCreate => .allowCreate
  | .claimCreate => .claimCreate
  | .createRoom => .createRoom
  | .addOwner r => .addOwner r
  | .allowRedeem tok => .allowRedeem tok
  | .claimRedeem tok => .claimRedeem tok
  | .redeemInvite tok => .redeemInvite tok
  | .getRoom tok r => .getRoom tok r
  | .hasCapacity tok r => .hasCapacity tok r
  | .ownerClient tok r => .ownerClient tok r
  | .newHandshake tok r o => .newHandshake tok r o
  | .sendRedeemOk tok r o h => .sendRedeemOk tok r o h
  | .sendInviteRedeemed tok r o h => .sendInviteRedeemed tok r o h
  | .hsLoop r h => .hsLoop r h
  | .hsRelay r h type h' d => .hsRelay r h type h' (f d)
  | .hsSend r h dst m => .hsSend r h dst (m.map f)
  | .hsEnter r h => .hsEnter r h
  | .hsFull h => .hsFull h
  | .endHandshake h => .endHandshake h
  | .fail m => .fail (m.map f)
  | .closeOut => .closeOut
  | .member r todo => .member r (todo.map (RoomOp.map f))
  | .leave r => .leave r
  | .leaveClose r reason => .leaveClose r reason
  | .leaveWait r => .leaveWait r
  | .clearSession => .clearSession
  | .awaitDone => .awaitDone
  | .deferHandshakes => .deferHandshakes
  | .deferSession => .deferSession
  | .deferBytes rest => .deferBytes rest
  | .exited => .exited

def Conn.map (f : D → D') (k : Conn D) : Conn D' :=
  { k with pc := k.pc.map f, out := k.out.map (ServerMsg.map f) }

def State.map (f : D → D') (s : State D) : State D' :=
  { s with conns := fun c => (s.conns c).map f }

def Act.map (f : D → D') : Act D → Act D'
  | .connect c hello => .connect c (hello.map f)
  | .frame c m => .frame c (m.map f)
  | .readErr c => .readErr c
  | .run c draw allow => .run c draw allow
  | .pump c => .pump c
  | .pumpExit c => .pumpExit c
  | .drop c => .drop c
  | .closing r pick => .closing r pick
  | .janitor pick => .janitor pick
  | .shutdown pick => .shutdown pick
  | .clock t => .clock t

/-! ## Sections -/

@[simp] theorem Conn.map_pc (f : D → D') (k : Conn D) : (k.map f).pc = k.pc.map f := rfl

@[simp] theorem Conn.map_out (f : D → D') (k : Conn D) :
    (k.map f).out = k.out.map (ServerMsg.map f) := rfl

@[simp] theorem Conn.map_fileTransfers (f : D → D') (k : Conn D) :
    (k.map f).fileTransfers = k.fileTransfers := rfl

namespace State

variable (f : D → D') (s : State D) (c : ClientId) (r : RoomId)

@[simp] theorem map_conns : (s.map f).conns c = (s.conns c).map f := rfl

@[simp] theorem map_room : (s.map f).room = s.room := rfl

@[simp] theorem map_rooms : (s.map f).rooms = s.rooms := rfl

@[simp] theorem map_now : (s.map f).now = s.now := rfl

@[simp] theorem map_inflight : (s.map f).inflight = s.inflight := rfl

@[simp] theorem map_handshakes : (s.map f).handshakes = s.handshakes := rfl

@[simp] theorem map_ownerClient : (s.map f).ownerClient r = s.ownerClient r := rfl

@[simp] theorem map_hasCapacity (cfg : Config) :
    (s.map f).hasCapacity cfg r = s.hasCapacity cfg r := rfl

@[simp] theorem map_addInflight (b : Int64) :
    (s.map f).addInflight b = (s.addInflight b).map f := rfl

@[simp] theorem map_membersInfo : (s.map f).membersInfo r = s.membersInfo r := rfl

theorem map_setConn {g : Conn D → Conn D} {g' : Conn D' → Conn D'}
    (h : (g (s.conns c)).map f = g' ((s.conns c).map f)) :
    (s.setConn c g).map f = (s.map f).setConn c g' := by
  have hconns : (fun d => (Function.update s.conns c (g (s.conns c)) d).map f) =
      Function.update (fun d => (s.conns d).map f) c (g' ((s.conns c).map f)) := by
    funext d
    by_cases hd : d = c
    · subst hd
      simp [h]
    · simp [hd]
  simp only [State.map, setConn, hconns]

@[simp] theorem map_goto (pc : Pc D) : (s.goto c pc).map f = (s.map f).goto c (pc.map f) :=
  map_setConn f s c rfl

@[simp] theorem map_setRoom (rm : Room) : (s.setRoom r rm).map f = (s.map f).setRoom r rm := rfl

@[simp] theorem map_note (e : Event) : (s.note e).map f = (s.map f).note e := rfl

theorem map_trySend (k : Conn D) (m : ServerMsg D) :
    (k.trySend m).map f = (k.map f).trySend (m.map f) := by
  simp only [Conn.trySend, Conn.map, List.length_map]
  split
  · simp
  · rfl

theorem map_deliver (k : Conn D) (m : ServerMsg D) :
    (k.deliver m).map f = (k.map f).deliver (m.map f) := by
  simp only [Conn.deliver, Conn.map, List.length_map]
  split
  · rfl
  · split
    · simp
    · rfl

@[simp] theorem map_sendLocked (m : ServerMsg D) :
    (s.sendLocked c m).map f = (s.map f).sendLocked c (m.map f) := by
  have hsend : (s.setConn c (·.trySend m)).map f = (s.map f).setConn c (·.trySend (m.map f)) :=
    map_setConn f s c (map_trySend f (s.conns c) m)
  unfold sendLocked
  rw [apply_ite (State.map f), hsend, map_note]
  rfl

@[simp] theorem map_closeChan : (s.closeChan c).map f = (s.map f).closeChan c := by
  unfold closeChan
  rw [apply_ite (State.map f), map_note]
  congr 1
  exact map_setConn f s c rfl

@[simp] theorem map_broadcastLocked (m : ServerMsg D) (ex : Option ClientId) :
    (s.broadcastLocked r m ex).map f = (s.map f).broadcastLocked r (m.map f) ex := by
  have hconns : (fun c => (if c ∈ s.receivers r ex then (s.conns c).deliver m
      else s.conns c).map f) = fun c => if c ∈ s.receivers r ex then
        ((s.conns c).map f).deliver (m.map f) else (s.conns c).map f := by
    funext c
    rw [apply_ite (Conn.map f), map_deliver]
  simp only [State.map, broadcastLocked, hconns]
  rfl

@[simp] theorem map_broadcastPresence :
    (s.broadcastPresence r).map f = (s.map f).broadcastPresence r := by
  unfold broadcastPresence
  rw [apply_ite (State.map f), map_broadcastLocked]
  rfl

@[simp] theorem map_broadcastExcept (m : ServerMsg D) :
    (s.broadcastExcept r c m).map f = (s.map f).broadcastExcept r c (m.map f) := by
  unfold broadcastExcept
  rw [apply_ite (State.map f), map_broadcastLocked]
  rfl

@[simp] theorem map_sendTo (m : ServerMsg D) :
    (s.sendTo r c m).map f = (s.map f).sendTo r c (m.map f) := by
  unfold sendTo
  rw [apply_ite (State.map f), apply_ite (State.map f), map_sendLocked]
  rfl

@[simp] theorem map_relay (body : D) :
    (s.relay r c body).map f = (s.map f).relay r c (f body) := by
  unfold State.relay
  rw [apply_ite (State.map f), map_broadcastLocked]
  rfl

theorem map_add (cfg : Config) : (s.map f).add cfg r c = (s.add cfg r c).map (State.map f) := by
  simp only [add, apply_ite (Option.map (State.map f)), Option.map_none, Option.map_some]
  rfl

theorem map_setOwner : (s.map f).setOwner r c = (s.setOwner r c).map (State.map f) := by
  simp only [setOwner, apply_ite (Option.map (State.map f)), Option.map_none, Option.map_some]
  rfl

@[simp] theorem map_dropMember : (s.dropMember r c).map f = (s.map f).dropMember r c := by
  simp only [dropMember, map_broadcastLocked, map_setRoom]
  rw [← map_closeChan]
  rfl

theorem map_removeMember (reason : Reason) :
    (s.map f).removeMember r c reason = (s.removeMember r c reason).map (State.map f) := by
  simp only [removeMember, apply_ite (Option.map (State.map f)), Option.map_none, Option.map_some,
    map_note, map_dropMember, map_sendLocked]
  rfl

@[simp] theorem map_setClosing (k : Closing) :
    (s.setClosing r k).map f = (s.map f).setClosing r k := rfl

theorem map_closeBegin (reason : Option Reason) :
    (s.map f).closeBegin r reason = (s.closeBegin r reason).map (State.map f) := by
  simp only [closeBegin, apply_ite (Option.map (State.map f)), Option.map_none, Option.map_some]
  rfl

/-! The hub's maps hold no payload. -/

theorem map_tryClaimSession (sid : String) :
    (s.map f).tryClaimSession sid c = (s.tryClaimSession sid c).map (State.map f) := by
  simp only [tryClaimSession, apply_ite (Option.map (State.map f)), Option.map_none,
    Option.map_some]
  rfl

@[simp] theorem map_setSessionRoom (sid : String) :
    (s.setSessionRoom sid r).map f = (s.map f).setSessionRoom sid r := by
  unfold setSessionRoom
  cases h : s.sessions.lookup sid with
  | none => simp only [State.map, h]
  | some sc =>
    simp only [State.map, h]
    split <;> rfl

@[simp] theorem map_clearSession (sid : String) :
    (s.clearSession sid c).map f = (s.map f).clearSession sid c := by
  unfold clearSession
  cases h : s.sessions.lookup sid with
  | none => simp only [State.map, h]
  | some sc =>
    simp only [State.map, h]
    split <;> rfl

@[simp] theorem map_clearSessionByClient :
    (s.clearSessionByClient c).map f = (s.map f).clearSessionByClient c := by
  unfold clearSessionByClient
  cases h : s.sessions.entries.find? fun e => e.2.client = c <;> simp only [State.map, h]

theorem map_redeemInvite (tok : Handle) : (s.map f).redeemInvite tok =
    ((s.redeemInvite tok).1.map f, (s.redeemInvite tok).2) := by
  unfold redeemInvite
  cases h : s.invites tok with
  | none => simp only [State.map, h]
  | some inv =>
    simp only [State.map, h]
    rfl

theorem map_drawId (h : Handle) : (s.map f).drawId h = (s.drawId h).map (State.map f) := by
  simp only [drawId, apply_ite (Option.map (State.map f)), Option.map_none, Option.map_some]
  rfl

@[simp] theorem map_clientSend (dst : ClientId) (m : ServerMsg D) (pc : Pc D) :
    (s.clientSend c dst m pc).map f = (s.map f).clientSend c dst (m.map f) (pc.map f) := by
  have hsend : (s.setConn dst (·.trySend m)).map f =
      (s.map f).setConn dst (·.trySend (m.map f)) :=
    map_setConn f s dst (map_trySend f (s.conns dst) m)
  have hpanic : (s.panic c dst).map f = (s.map f).panic c dst := map_setConn f _ c rfl
  unfold clientSend
  rw [apply_ite (State.map f), hpanic, map_goto, hsend]
  rfl

@[simp] theorem map_noteCheck (q : OwnerReq D) :
    (s.noteCheck c r q).map f = (s.map f).noteCheck c r (q.map f) := by
  unfold noteCheck
  rw [map_ownerClient]
  cases q <;> cases s.ownerClient r <;> rfl

end State

/-! ## Goroutines -/

variable (f : D → D')

theorem map_refusal (q : OwnerReq D) : refusal (q.map f) = (refusal q).map (ServerMsg.map f) := by
  cases q <;> rfl

theorem map_memberFrame (c : ClientId) (m : ClientMsg D) :
    memberFrame c (m.map f) = (memberFrame c m).map (List.map (RoomOp.map f)) := by
  cases m <;> simp only [ClientMsg.map, memberFrame, Option.map_some, apply_ite (List.map _),
    List.map_nil] <;> rfl

theorem map_readFrame (c : ClientId) (m : ClientMsg D) (pc : Pc D) :
    readFrame c (m.map f) (pc.map f) = (readFrame c m pc).map (Pc.map f) := by
  cases pc with
  | hsLoop r h =>
    have hjoiner : joinerFrame r h (m.map f) = (joinerFrame r h m).map f := by
      cases m with
      | enter h' =>
        simp only [ClientMsg.map, joinerFrame]
        split <;> rfl
      | _ => rfl
    exact congrArg some hjoiner
  | member r todo =>
    cases todo with
    | nil =>
      simp only [readFrame, Pc.map, List.map_nil, map_memberFrame]
      cases memberFrame c m <;> rfl
    | cons op k => rfl
  | _ => rfl

theorem map_readFails (pc : Pc D) : readFails (pc.map f) = (readFails pc).map (Pc.map f) := by
  cases pc with
  | member r todo => cases todo <;> rfl
  | _ => rfl

/-- The end of a branch: its sections commute with the map, and its program point does. -/
theorem goto_map {f : D → D'} {s : State D} {t : State D'} {pc : Pc D} {pc' : Pc D'}
    (c : ClientId) (h : s.map f = t) (hpc : pc.map f = pc') :
    some (t.goto c pc') = (some (s.goto c pc)).map (State.map f) := by
  subst h hpc
  exact congrArg some (State.map_goto f s c pc).symm

/-- A test that reads no payload has the same answer on both sides. -/
theorem branch_map {f : D → D'} {p : Prop} {i j : Decidable p} {x y : Option (State D)}
    {x' y' : Option (State D')} (hx : x' = x.map (State.map f)) (hy : y' = y.map (State.map f)) :
    @ite _ p i x' y' = (@ite _ p j x y).map (State.map f) := by
  subst hx hy
  by_cases h : p
  · simp only [if_pos h]
  · simp only [if_neg h]

theorem clientSend_map {f : D → D'} {s : State D} {m : ServerMsg D} {m' : ServerMsg D'}
    {pc : Pc D} {pc' : Pc D'} (c dst : ClientId) (hm : m.map f = m') (hpc : pc.map f = pc') :
    some ((s.map f).clientSend c dst m' pc') =
      (some (s.clientSend c dst m pc)).map (State.map f) := by
  subst hm hpc
  exact congrArg some (State.map_clientSend f s c dst m pc).symm

section
variable {f} (cfg : Config) (s : State D) (c : ClientId) (draw : Handle) (r : RoomId)

theorem map_runOwned (k : List (RoomOp D)) (q : OwnerReq D) :
    runOwned cfg (s.map f) c draw r (k.map (RoomOp.map f)) (q.map f) =
      (runOwned cfg s c draw r k q).map (State.map f) := by
  cases q with
  | invite =>
    simp only [OwnerReq.map, runOwned, State.map_drawId]
    cases s.drawId draw with
    | none => rfl
    | some s' => exact goto_map c rfl rfl
  | rekey t d => exact goto_map c (State.map_sendTo f s t r _) rfl
  | transfer t =>
    simp only [OwnerReq.map, runOwned, State.map_setOwner]
    cases s.setOwner r t with
    | none => exact goto_map c rfl rfl
    | some s' => exact goto_map c rfl rfl
  | kick t =>
    simp only [OwnerReq.map, runOwned, State.map_removeMember]
    cases s.removeMember r t .kicked with
    | none => exact goto_map c rfl rfl
    | some s' => exact goto_map c rfl rfl
  | roster d => exact goto_map c (State.map_broadcastExcept f s c r _) rfl

variable [Payload D] [Payload D'] (hlen : ∀ d : D, Payload.len (f d) = Payload.len d)
include hlen

theorem chunkSize_map (d : D) : chunkSize (f d) = chunkSize d := by
  unfold chunkSize
  rw [hlen]

theorem map_runOp (k : List (RoomOp D)) (op : RoomOp D) :
    runOp cfg (s.map f) c draw r (k.map (RoomOp.map f)) (op.map f) =
      (runOp cfg s c draw r k op).map (State.map f) := by
  cases op with
  | setSessionRoom => exact goto_map c (State.map_setSessionRoom f s r _) rfl
  | snapshotMembers role => exact goto_map c rfl rfl
  | endHandshake h => exact goto_map c rfl rfl
  | broadcastPresence => exact goto_map c (State.map_broadcastPresence f s r) rfl
  | send dst m => exact clientSend_map c dst rfl rfl
  | relay body => exact goto_map c (State.map_relay f s c r body) rfl
  | ownerCheck q =>
    simp only [RoomOp.map, runOp, State.map_ownerClient, map_refusal]
    split
    · exact goto_map c (State.map_noteCheck f s c r q) rfl
    · cases refusal q with
      | none => exact goto_map c (State.map_noteCheck f s c r q) rfl
      | some m => exact goto_map c (State.map_noteCheck f s c r q) rfl
  | owned q => exact map_runOwned cfg s c draw r k q
  | clearSessionByClient v => exact goto_map c (State.map_clearSessionByClient f s v) rfl
  | getHandshake type h d =>
    simp only [RoomOp.map, runOp, State.map_handshakes]
    cases (s.handshakes h).bind (·.peer c) with
    | none => exact goto_map c rfl rfl
    | some p => exact goto_map c rfl rfl
  | fileStart t kid d => exact goto_map c (State.map_setConn f s c rfl) rfl
  | fileChunk t i d =>
    simp only [RoomOp.map, runOp, chunkSize_map hlen, State.map_conns, Conn.map_fileTransfers]
    cases (s.conns c).fileTransfers.lookup t with
    | none => exact goto_map c rfl rfl
    | some cur =>
      simp only
      split
      · exact goto_map c rfl (by simp [Pc.map, abortFile, RoomOp.map, ServerMsg.map, fileMsg,
          errorMsg])
      · exact goto_map c rfl rfl
  | addInflight t cur i d =>
    simp only [RoomOp.map, runOp, chunkSize_map hlen, State.map_addInflight, State.map_inflight]
    split
    · exact goto_map c (State.map_addInflight f s _).symm (by
        simp [Pc.map, abortFile, RoomOp.map, ServerMsg.map, fileMsg, errorMsg])
    · exact goto_map c rfl rfl
  | accept t cur i d =>
    simp only [RoomOp.map, runOp, chunkSize_map hlen]
    exact goto_map c (State.map_setConn f s c rfl) rfl
  | rollback size => exact goto_map c rfl rfl
  | release t =>
    simp only [RoomOp.map, runOp, State.map_conns, Conn.map_fileTransfers]
    cases (s.conns c).fileTransfers.lookup t with
    | none => exact goto_map c rfl rfl
    | some b => exact goto_map c rfl rfl
  | forget t => exact goto_map c (State.map_setConn f s c rfl) rfl
  | broadcastFile m => exact goto_map c (State.map_broadcastExcept f s c r m) rfl

theorem map_runPc (allow : Bool) (pc : Pc D) :
    runPc cfg (s.map f) c draw allow (pc.map f) =
      (runPc cfg s c draw allow pc).map (State.map f) := by
  have hsession : ((s.map f).conns c).session = (s.conns c).session := rfl
  cases pc with
  | allowCreate => cases allow <;> exact goto_map c rfl rfl
  | allowRedeem tok => cases allow <;> exact goto_map c rfl rfl
  | claimCreate =>
    simp only [Pc.map, runPc, hsession, State.map_tryClaimSession]
    cases s.tryClaimSession (s.conns c).session c with
    | none => exact goto_map c rfl rfl
    | some s' => exact goto_map c rfl rfl
  | claimRedeem tok =>
    simp only [Pc.map, runPc, hsession, State.map_tryClaimSession]
    cases s.tryClaimSession (s.conns c).session c with
    | none => exact goto_map c rfl rfl
    | some s' => exact goto_map c rfl rfl
  | createRoom =>
    simp only [Pc.map, runPc, State.map_drawId]
    cases s.drawId draw with
    | none => rfl
    | some s' => exact goto_map c rfl rfl
  | addOwner r =>
    simp only [Pc.map, runPc, State.map_add]
    cases s.add cfg r c with
    | none => exact goto_map c rfl rfl
    | some s' => exact goto_map c rfl rfl
  | redeemInvite tok =>
    simp only [Pc.map, runPc, State.map_redeemInvite]
    rcases s.redeemInvite tok with ⟨s', _ | r⟩
    · exact goto_map c rfl rfl
    · exact goto_map c rfl rfl
  | getRoom tok r =>
    exact goto_map c rfl (by rw [apply_ite (Pc.map f)]; rfl)
  | hasCapacity tok r =>
    exact goto_map c rfl (by rw [apply_ite (Pc.map f)]; rfl)
  | ownerClient tok r =>
    simp only [Pc.map, runPc, State.map_ownerClient]
    cases s.ownerClient r with
    | none => exact goto_map c rfl rfl
    | some o => exact goto_map c rfl rfl
  | newHandshake tok r o =>
    simp only [Pc.map, runPc, State.map_drawId]
    cases s.drawId draw with
    | none => rfl
    | some s' => exact goto_map c rfl rfl
  | sendRedeemOk tok r o h => exact clientSend_map c c rfl rfl
  | sendInviteRedeemed tok r o h => exact clientSend_map c o rfl rfl
  | hsRelay r h type h' d =>
    simp only [Pc.map, runPc, State.map_handshakes]
    cases (s.handshakes h').bind (·.peer c) with
    | none => exact goto_map c rfl rfl
    | some p => exact goto_map c rfl rfl
  | hsSend r h dst m => exact clientSend_map c dst rfl rfl
  | hsEnter r h =>
    simp only [Pc.map, runPc, State.map_add]
    cases s.add cfg r c with
    | none => exact goto_map c rfl rfl
    | some s' => exact goto_map c rfl rfl
  | hsFull h => exact clientSend_map c c rfl rfl
  | fail m => exact clientSend_map c c rfl rfl
  | endHandshake h => exact goto_map c rfl rfl
  | closeOut => exact goto_map c (State.map_closeChan f s c) rfl
  | member r todo =>
    cases todo with
    | nil => rfl
    | cons op k => exact map_runOp cfg s c draw r hlen k op
  | leave r =>
    refine branch_map (goto_map c rfl rfl) (branch_map (goto_map c rfl rfl) ?_)
    refine goto_map c (State.map_dropMember f s c r) ?_
    rw [apply_ite (Pc.map f), ← State.map_dropMember f s c r]
    rfl
  | leaveClose r reason =>
    simp only [Pc.map, runPc, State.map_closeBegin]
    cases s.closeBegin r reason with
    | none => exact goto_map c rfl rfl
    | some s' => exact goto_map c rfl rfl
  | leaveWait r => exact branch_map (goto_map c rfl rfl) rfl
  | clearSession => exact goto_map c (State.map_clearSession f s c _) rfl
  | awaitDone => exact branch_map (goto_map c rfl rfl) rfl
  | deferHandshakes => exact goto_map c rfl rfl
  | deferSession => exact goto_map c (State.map_clearSession f s c _) rfl
  | deferBytes rest => cases rest <;> exact goto_map c rfl rfl
  | _ => rfl

omit hlen [Payload D] [Payload D'] in
theorem map_runClosing (pick : ClientId) (k : Closing) :
    runClosing (s.map f) r pick k = (runClosing s r pick k).map (State.map f) := by
  cases k with
  | no | done => rfl
  | removeRoom reason ms | dropInvites reason ms => rfl
  | next reason ms =>
    cases ms with
    | nil => rfl
    | cons m ms =>
      refine branch_map (congrArg some ?_) rfl
      rw [State.map_setClosing, State.map_clearSessionByClient]
  | notice re c ms => exact congrArg some (by rw [State.map_setClosing, State.map_sendLocked]; rfl)
  | closeOut reason c ms => exact congrArg some (by rw [State.map_setClosing, State.map_closeChan])

omit hlen [Payload D] [Payload D'] in
theorem map_runJanitor (pick : RoomId) (j : Janitor) :
    runJanitor cfg (s.map f) pick j = (runJanitor cfg s pick j).map (State.map f) := by
  cases j with
  | idle => exact branch_map rfl rfl
  | scan now todo =>
    cases todo with
    | nil => rfl
    | cons r rs => exact branch_map rfl rfl
  | idleFor now r todo => rfl
  | close now r todo =>
    simp only [runJanitor, State.map_closeBegin]
    cases s.closeBegin r (some .idle) with
    | none => rfl
    | some s' => rfl
  | wait now r todo => exact branch_map rfl rfl
  | gcInvites now => rfl

omit hlen [Payload D] [Payload D'] in
theorem map_runShutdown (pick : RoomId) (j : Shutdown) :
    runShutdown (s.map f) pick j = (runShutdown s pick j).map (State.map f) := by
  cases j with
  | idle => rfl
  | run todo =>
    cases todo with
    | nil => rfl
    | cons r rs =>
      refine branch_map ?_ rfl
      rw [State.map_closeBegin]
      cases s.closeBegin pick (some .serverStop) with
      | none => rfl
      | some s' => rfl
  | wait r todo => exact branch_map rfl rfl

/-! ## The machine -/

/-- The step lemma: a label with mapped payloads does to a mapped state what the label does to the
state. -/
theorem step_map (a : Act D) : step cfg (s.map f) (a.map f) = (step cfg s a).map (State.map f) := by
  cases a with
  | connect c hello =>
    simp only [Act.map, step, State.map_drawId]
    cases s.drawId c with
    | none => rfl
    | some s' =>
      refine congrArg some (State.map_setConn f { s' with started := insert c s'.started } c ?_).symm
      cases hello <;> rfl
  | frame c m =>
    refine branch_map rfl ?_
    have hread := map_readFrame f c m (s.conns c).pc
    rw [State.map_conns, Conn.map_pc, hread]
    cases readFrame c m (s.conns c).pc with
    | none => rfl
    | some pc => exact goto_map c rfl rfl
  | readErr c =>
    simp only [Act.map, step, State.map_conns, Conn.map_pc, map_readFails]
    cases readFails (s.conns c).pc with
    | none => rfl
    | some pc => exact congrArg some (State.map_setConn f s c rfl).symm
  | run c draw allow => exact map_runPc cfg s c draw hlen allow _
  | pump c =>
    refine branch_map rfl ?_
    rw [State.map_conns, Conn.map_out]
    cases hout : (s.conns c).out with
    | nil => rfl
    | cons m rest =>
      refine congrArg some (State.map_setConn f s c ?_).symm
      rfl
  | pumpExit c => exact branch_map rfl (congrArg some (State.map_setConn f s c rfl).symm)
  | drop c => exact congrArg some (State.map_setConn f s c rfl).symm
  | closing r pick => exact map_runClosing s r pick _
  | janitor pick => exact map_runJanitor cfg s pick _
  | shutdown pick => exact map_runShutdown s pick _
  | clock t => rfl

end

/-- A map of payloads that keeps their length, as a map of relays. -/
def blindness [Payload D] [Payload D'] (cfg : Config) (f : D → D')
    (hlen : ∀ d : D, Payload.len (f d) = Payload.len d) :
    Lib.Machine.Hom (relay (D := D) cfg) (relay (D := D') cfg) where
  onState := State.map f
  onLabel := Act.map f
  init := rfl
  step s a := step_map cfg s hlen a

/-- What an onlooker sees who is shown the length of every payload and nothing else of it. -/
abbrev State.shape [Payload D] (s : State D) : State Nat := s.map Payload.len

abbrev Act.shape [Payload D] (a : Act D) : Act Nat := a.map Payload.len

end Relay
end E2EAnon
