import E2EAnon.Web.State

/-!
# The client's handlers (`web/src/main.ts`)

Every handler runs to its end before the next event is taken. A handler that can throw returns
whether it came to its end; what it did before the throw stays done.
-/

namespace E2EAnon.Web

def ownerIdOf (members : List MemberInfo) : Handle :=
  ((members.find? fun m => m.role = .owner).map (·.id)).getD empty

/-- The members of a presence frame as a `Set` of ids. -/
def idsOf (members : List MemberInfo) : List Handle :=
  members.foldl (fun ids m => Lib.JsSet.add m.id ids) []

/-- The loop of `applyRoster`: it ends at the first value that is not base64url text. -/
def mergeRoster (pubs : Lib.JsMap Handle Data) : List (Handle × Data) → Lib.JsMap Handle Data
  | [] => pubs
  | (id, v) :: es =>
    match b64urlToBytes v with
    | some b => mergeRoster (Lib.JsMap.set id b pubs) es
    | none => pubs

/-- The object of `broadcastRoster`. -/
def rosterOf (s : Session) : List (Handle × Data) :=
  s.memberPubs.foldl (fun obj e => Lib.JsMap.assign protoKey e.1 (bytesToB64url e.2) obj)
    [(s.memberId, bytesToB64url s.kp.pub)]

/-- Runs `f` on each element until one throws. -/
def forEach {α : Type} (f : Client → α → Client × Bool) : Client → List α → Client × Bool
  | c, [] => (c, true)
  | c, a :: as =>
    match f c a with
    | (c, true) => forEach f c as
    | (c, false) => (c, false)

namespace Client

/-! ## Opening under the room keys -/

/-- `decryptAny` (`main.ts:320`). -/
def decryptAny (c : Client) (body : Data) : Option Data :=
  c.session.bind fun s => s.keys.findSome? fun k => decryptMessage (c.read k) body

/-! ## Invite issuance (owner) -/

/-- `onInviteCreated` (`main.ts:334`). -/
def onInviteCreated (c : Client) (msg : ServerMsg Data) : Client :=
  match c.session, given msg.token with
  | some _, some token =>
    let (c, code) := c.draw
    c.modify fun s => { s with pendingInvites := Lib.JsMap.set token code s.pendingInvites }
  | _, _ => c

/-- A new `HandshakeSession` under `hsId`; its constructor sends the first `pake`. -/
def beginHandshake (c : Client) (pr : PakeRole) (role : HsRole) (code : Data) (hsId joinerId : Handle) :
    Client :=
  let (c, x) := c.draw
  let hs := HandshakeSession.new pr code hsId x
  let c := c.send (.pake hsId (pakeFrame .pakeM hs.state.message))
  c.modify (·.setHandshake hsId { hs, role, joinerMemberId := joinerId })

/-- `onInviteRedeemed` (`main.ts:344`). -/
def onInviteRedeemed (c : Client) (msg : ServerMsg Data) : Client :=
  match c.session, given msg.handshake, given msg.token, given msg.memberId with
  | some s, some hsId, some token, some memberId =>
    match Lib.JsMap.get token s.pendingInvites with
    | none => c
    | some code =>
      (c.modify fun s => { s with
        pendingInvites := Lib.JsMap.delete token s.pendingInvites }).beginHandshake
          .A .owner code hsId memberId
  | _, _, _, _ => c

/-! ## Join handshake (joiner) -/

/-- `onRedeemOk` (`main.ts:370`). -/
def onRedeemOk (c : Client) (msg : ServerMsg Data) : Client :=
  match c.session, given msg.handshake, c.pendingJoin with
  | some _, some hsId, some (_, code) =>
    ({ c with pendingJoin := none }.modify fun s => { s with
      memberId := msg.memberId.getD empty }).beginHandshake .B .joiner code hsId empty
  | _, _, _ => c

/-- The callbacks of a `HandshakeSession` (`main.ts:357-363`, `:383-392`). -/
def onVerdict (c : Client) (hsId : Handle) (r : HsRecord) : Verdict → Client
  | .none => c
  | .confirmed ke =>
    let (c, a) := c.alloc ke
    let c := c.modify (·.setHandshake hsId { r with ke := some a })
    match c.session with
    | some s => c.send (.memberKey hsId (sealUnderKe ke s.kp.pub))
    | none => c
  | .failed =>
    match r.role with
    | .owner => c.modify (·.deleteHandshake hsId)
    | .joiner => c.teardown

/-- The `pake` case of `onMessage` (`main.ts:262`). -/
def onPake (c : Client) (msg : ServerMsg Data) : Client :=
  match c.session, given msg.handshake, msg.data with
  | some s, some hsId, some data =>
    match Lib.JsMap.get hsId s.handshakes with
    | none => c
    | some r =>
      let (hs, confirm, verdict) := r.hs.onData data
      let r := { r with hs }
      let c := c.modify (·.setHandshake hsId r)
      let c := match confirm with
        | some d => c.send (.pake hsId (pakeFrame .pakeC d))
        | none => c
      c.onVerdict hsId r verdict
  | _, _, _ => c

/-! ## Rotation -/

/-- `rekeyMember` (`main.ts:525`). -/
def rekeyMember (newKey : Addr) (c : Client) (memberId : Handle) : Client × Bool :=
  match c.session with
  | none => (c, true)
  | some s =>
    match Lib.JsMap.get memberId s.memberPubs with
    | none => (c, true)
    | some pub =>
      match sealRoomKey (c.read s.kp.priv) pub (c.read newKey) with
      | some d => (c.send (.rekey memberId d), true)
      | none => (c, false)

/-- The `key_deliver` of `rotateForJoin` (`main.ts:421-423`). -/
def deliverKey (c : Client) (joinerId : Handle) (joinerPub : Data) (newKey : Addr) :
    Client × Bool :=
  match c.session with
  | none => (c, true)
  | some s =>
    match s.handshakes.find? fun e => e.2.role = .owner ∧ e.2.joinerMemberId = joinerId with
    | none => (c, true)
    | some e =>
      match sealRoomKey (c.read s.kp.priv) joinerPub (c.read newKey) with
      | some d => (c.send (.keyDeliver e.1 d), true)
      | none => (c, false)

/-- `rotateForJoin` (`main.ts:417`). -/
def rotateForJoin (c : Client) (joinerId : Handle) (joinerPub : Data) : Client × Bool :=
  match c.session with
  | none => (c, true)
  | some s =>
    let (c, newKey) := c.generateRoomKey
    let c := c.pushKey newKey
    match c.deliverKey joinerId joinerPub newKey with
    | (c, false) => (c, false)
    | (c, true) =>
      match forEach (rekeyMember newKey) c
          (s.knownMembers.filter fun id => id ≠ s.memberId ∧ id ≠ joinerId) with
      | (c, false) => (c, false)
      | (c, true) =>
        (c.modify fun s => { s with knownMembers := Lib.JsSet.add joinerId s.knownMembers }, true)

/-- `finishJoin` (`main.ts:441`). -/
def finishJoin (c : Client) (hsId : Handle) (r : HsRecord) (data : Data) : Client :=
  match c.session with
  | none => c
  | some s =>
    match s.firstOwnerPub with
    | none => c
    | some ownerPub =>
      match openRoomKey (c.read s.kp.priv) ownerPub data with
      | none => c.teardown
      | some roomKey =>
        let (c, a) := c.alloc roomKey
        (((c.pushKey a).wipe r.ke.toList).modify (·.deleteHandshake hsId)).send (.enter hsId)

/-- `onMemberKey` (`main.ts:397`). -/
def onMemberKey (c : Client) (msg : ServerMsg Data) : Client :=
  match c.session, given msg.handshake, msg.data with
  | some s, some hsId, some data =>
    match Lib.JsMap.get hsId s.handshakes with
    | none => c
    | some r =>
      match r.ke with
      | none => c
      | some ke =>
        match openUnderKe (c.read ke) data with
        | none => c
        | some peerPub =>
          match r.role with
          | .owner =>
            let c := c.modify (·.setPub r.joinerMemberId peerPub)
            match c.rotateForJoin r.joinerMemberId peerPub with
            | (c, true) =>
              c.modify (·.deleteHandshake hsId)
            | (c, false) => c
          | .joiner =>
            let c := c.modify fun s => { s with firstOwnerPub := some peerPub }
            match r.parked with
            | some d => c.finishJoin hsId r d
            | none => c
  | _, _, _ => c

/-- `onKeyDeliver` (`main.ts:431`). -/
def onKeyDeliver (c : Client) (msg : ServerMsg Data) : Client :=
  match c.session, given msg.handshake, msg.data with
  | some s, some hsId, some data =>
    match Lib.JsMap.get hsId s.handshakes with
    | none => c
    | some r =>
      match s.firstOwnerPub with
      | none => c.modify (·.setHandshake hsId { r with pendingKeyDeliver := some data })
      | some _ => c.finishJoin hsId r data
  | _, _, _ => c

/-- `onRekey` (`main.ts:459`). -/
def onRekey (c : Client) (msg : ServerMsg Data) : Client :=
  match c.session, msg.data with
  | some s, some data =>
    match Lib.JsMap.get s.ownerId s.memberPubs with
    | none => c
    | some ownerPub =>
      match openRoomKey (c.read s.kp.priv) ownerPub data with
      | none => c
      | some roomKey =>
        let (c, a) := c.alloc roomKey
        c.pushKey a
  | _, _ => c

/-! ## Roster replication -/

/-- `applyRoster` (`main.ts:473`). -/
def applyRoster (c : Client) (data : Data) : Client :=
  match (c.decryptAny data).bind jsonEntries with
  | some es => c.modify fun s => { s with memberPubs := mergeRoster s.memberPubs es }
  | none => c

/-- `broadcastRoster` (`main.ts:486`). -/
def broadcastRoster (c : Client) : Client :=
  match c.session with
  | none => c
  | some s =>
    match s.role, s.keys with
    | .owner, k :: _ =>
      (c.noteSeal k none).send (.roster (encryptMessage (c.read k) (jsonOf (rosterOf s))))
    | _, _ => c

/-! ## Presence -/

/-- The rotation of `onPresence` (`main.ts:510-520`): `removed` are gone, `current` remain. -/
def rotateForLeave (c : Client) (removed current : List Handle) : Client × Bool :=
  let c := c.modify (·.forget removed)
  let (c, newKey) := c.generateRoomKey
  let c := c.pushKey newKey
  match c.session with
  | none => (c, true)
  | some s => forEach (rekeyMember newKey) c (current.filter (· ≠ s.memberId))

/-- `onPresence` (`main.ts:495`). -/
def onPresence (c : Client) (members : List MemberInfo) : Client :=
  match c.session with
  | none => c
  | some s =>
    let newOwnerId := ownerIdOf members
    let becameOwner := newOwnerId = s.memberId ∧ s.role ≠ .owner
    let c := c.modify fun s => { s with
      ownerId := newOwnerId
      role := if newOwnerId = s.memberId then .owner else .member
      lastMembers := members }
    if newOwnerId ≠ s.memberId then c
    else
      let current := idsOf members
      let known := if becameOwner then current else s.knownMembers
      let c := c.modify fun s => { s with knownMembers := known }
      let removed := known.filter (· ∉ current)
      match (if removed = [] then (c, true) else c.rotateForLeave removed current) with
      | (c, false) => c
      | (c, true) => (c.modify fun s => { s with knownMembers := current }).broadcastRoster

/-- `onWelcome` (`main.ts:303`). -/
def onWelcome (c : Client) (msg : ServerMsg Data) : Client :=
  c.modify fun s =>
    let members := msg.members.getD []
    let memberId := msg.memberId.getD s.memberId
    let ownerId := ownerIdOf members
    { s with
      room := msg.room.getD empty
      memberId
      ownerId
      role := if ownerId = memberId then .owner else .member
      knownMembers := if ownerId = memberId then idsOf members else s.knownMembers
      memberPubs := match s.firstOwnerPub with
        | some pub => if ownerId ≠ empty then Lib.JsMap.set ownerId pub s.memberPubs else s.memberPubs
        | none => s.memberPubs
      lastMembers := members }

/-! ## Errors and closing -/

/-- `handleError` (`main.ts:543`). -/
def handleError (c : Client) (msg : ServerMsg Data) : Client :=
  if msg.reason = some .fileRejected then c
  else if msg.reason = some .inRoom then c.teardown
  else match c.session with
    | some s => if s.room ≠ empty then c else c.teardown
    | none => c.teardown

/-- `onClose` (`main.ts:569`). -/
def onClose (c : Client) : Client :=
  let wasInRoom := c.session.any fun s => s.room ≠ empty
  let c := if wasInRoom ∧ ¬ c.intentionalClose then c.teardown
    else if ¬ wasInRoom then c.teardown
    else c
  { c with intentionalClose := false }

/-! ## Dispatch (`onMessage`, `main.ts:234`) -/

def onMessage (c : Client) (msg : ServerMsg Data) : Client :=
  match msg.type with
  | .welcome => c.onWelcome msg
  | .presence => c.onPresence (msg.members.getD [])
  | .inviteCreated => c.onInviteCreated msg
  | .inviteRedeemed => c.onInviteRedeemed msg
  | .redeemOk => c.onRedeemOk msg
  | .pake => c.onPake msg
  | .memberKey => c.onMemberKey msg
  | .keyDeliver => c.onKeyDeliver msg
  | .rekey => c.onRekey msg
  | .roster => match msg.data with
    | some data => c.applyRoster data
    | none => c
  | .roomClosed => { c with intentionalClose := true }.teardown
  | .error => c.handleError msg
  -- these write only what is displayed and the transfers being received
  | .chat | .fileStart | .fileChunk | .fileEnd | .fileAbort => c

end Client
end E2EAnon.Web
