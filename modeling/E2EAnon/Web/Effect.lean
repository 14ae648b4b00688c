import Mathlib.Logic.Relation
import E2EAnon.Web.Step

/-!
# What an event can do to the tab

`Effect a c₀` lists everything the handler of the event `a`, begun in `c₀`, does in one go: take a
key in, push a new one, send one kind of frame, and so on, each with what the source has checked
before. `step_effects`: a step is a sequence of effects. An invariant of the tab is proved once for
each effect.

`core` leaves out what no secret depends on: ids, roles, the member list, and how far the sockets
are.
-/

namespace E2EAnon.Web

def Session.core (s : Session) : Session :=
  { s with
    room := empty, memberId := empty, role := .member, ownerId := empty, knownMembers := []
    lastMembers := [] }

def Client.core (c : Client) : Client :=
  { c with
    session := c.session.map Session.core
    intentionalClose := false
    socket := fun sock => { c.socket sock with ready := .connecting } }

/-- The payload of the frame an event brings. -/
def Act.payload : Act → Option Data
  | .message _ msg => msg.data
  | _ => none

/-- Its type. -/
def Act.type : Act → Option ServerType
  | .message _ msg => some msg.type
  | _ => none

/-- Frames without a payload. -/
def plain : ClientMsg Data → Bool
  | .create _ _ | .redeem _ _ _ | .leave | .invite | .enter _ | .transfer _ | .kick _ | .fileEnd _ => true
  | _ => false

/-- The record a `member_key` belongs to and the public key in it, if the tab can open it. -/
def Client.memberKeyOf (c : Client) (msg : ServerMsg Data) : Option (HsRecord × Data) := do
  let s ← c.session
  let hsId ← given msg.handshake
  let r ← Lib.JsMap.get hsId s.handshakes
  let pub ← openUnderKe (c.read (← r.ke)) (← msg.data)
  some (r, pub)

/-- The event brings a `member_key` that the tab can open. -/
def Act.opens (a : Act) (c : Client) (r : HsRecord) (pub : Data) : Prop :=
  ∃ sock msg, a = .message sock msg ∧ msg.type = .memberKey ∧ c.memberKeyOf msg = some (r, pub)

/-- The public keys of the members a session knows. -/
def Session.knows (s : Session) (pub : Data) : Prop := ∃ id, Lib.JsMap.get id s.memberPubs = some pub

inductive Effect (a : Act) (c₀ : Client) : Client → Client → Prop
  | idle {c c' : Client} (h : c'.core = c.core) : Effect a c₀ c c'
  | sendPlain {c : Client} (m : ClientMsg Data) (h : plain m) : Effect a c₀ c (c.send m)
  | opened {c : Client} (sock : Nat) :
      Effect a c₀ c { c with outbox := c.outbox ++ [(sock, (c.socket sock).hello)] }
  -- connecting
  | beginConnect {c : Client} (hello : ClientMsg Data) (h : plain hello) :
      Effect a c₀ c { c with connects := c.connects ++ [hello] }
  | dropJoin {c : Client} : Effect a c₀ c { c with pendingJoin := none }
  | submitInvite {c : Client} (token : Handle) (code : Data) (nick session : String)
      (h : a = .join token code nick session) :
      Effect a c₀ c { c with pendingJoin := some (token, code) }
  | openSession {c : Client} (i : Nat) (hello : ClientMsg Data) (h : c.connects[i]? = some hello) :
      Effect a c₀ c ({ c with connects := c.connects.eraseIdx i }.openSession hello)
  | firstKey {c : Client} {s : Session} (hs : c.session = some s) (hk : s.keys = []) :
      Effect a c₀ c c.firstKey
  | teardown {c : Client} : Effect a c₀ c c.teardown
  -- handshakes
  | invite {c : Client} {s : Session} (token : Handle) (hs : c.session = some s) :
      Effect a c₀ c (c.draw.1.modify fun s => { s with
        pendingInvites := Lib.JsMap.set token c.draw.2 s.pendingInvites })
  | offer {c : Client} {s : Session} (token hsId memberId : Handle) (code : Data) (hs : c.session = some s)
      (h : Lib.JsMap.get token s.pendingInvites = some code)
      (ha : ∃ sock msg, a = .message sock msg ∧ msg.type = .inviteRedeemed ∧
        msg.handshake = some hsId ∧ msg.memberId = some memberId) :
      Effect a c₀ c ((c.modify fun s => { s with
        pendingInvites := Lib.JsMap.delete token s.pendingInvites }).beginHandshake
          .A .owner code hsId memberId)
  | accept {c : Client} {s : Session} (token hsId : Handle) (code : Data) (hs : c.session = some s)
      (h : c.pendingJoin = some (token, code))
      (ha : ∃ sock msg, a = .message sock msg ∧ msg.type = .redeemOk ∧ msg.handshake = some hsId) :
      Effect a c₀ c ({ c with pendingJoin := none }.beginHandshake .B .joiner code hsId empty)
  | pake {c : Client} {s : Session} (hsId : Handle) (r : HsRecord) (d : Data) (hs : c.session = some s)
      (hr : Lib.JsMap.get hsId s.handshakes = some r) (hd : a.payload = some d) :
      Effect a c₀ c (c.modify (·.setHandshake hsId { r with hs := (r.hs.onData d).1 }))
  | sendConfirm {c : Client} {s : Session} (hsId : Handle) (r : HsRecord) (res : Spake2Result)
      (hs : c.session = some s) (hr : Lib.JsMap.get hsId s.handshakes = some r)
      (hres : r.hs.result = some res) :
      Effect a c₀ c (c.send (.pake hsId (pakeFrame .pakeC res.confirm)))
  | confirmed {c : Client} {s : Session} (hsId : Handle) (r : HsRecord) (res : Spake2Result)
      (hs : c.session = some s) (hr : Lib.JsMap.get hsId s.handshakes = some r)
      (hres : r.hs.result = some res) :
      Effect a c₀ c ((c.alloc res.ke).1.modify (·.setHandshake hsId { r with ke := some (c.alloc res.ke).2 }))
  | sendMemberKey {c : Client} {s : Session} (hsId : Handle) (r : HsRecord) (res : Spake2Result)
      (hs : c.session = some s) (hr : Lib.JsMap.get hsId s.handshakes = some r)
      (hres : r.hs.result = some res) :
      Effect a c₀ c (c.send (.memberKey hsId (sealUnderKe res.ke s.kp.pub)))
  | endHandshake {c : Client} (hsId : Handle) :
      Effect a c₀ c (c.modify (·.deleteHandshake hsId))
  | park {c : Client} {s : Session} (hsId : Handle) (r : HsRecord) (d : Data) (hs : c.session = some s)
      (hr : Lib.JsMap.get hsId s.handshakes = some r) (hd : a.payload = some d)
      (ht : a.type = some .keyDeliver) :
      Effect a c₀ c (c.modify (·.setHandshake hsId { r with pendingKeyDeliver := some d }))
  | wipeKe {c : Client} {s : Session} (hsId : Handle) (r : HsRecord) (hs : c.session = some s)
      (hr : Lib.JsMap.get hsId s.handshakes = some r) :
      Effect a c₀ c ((c.wipe r.ke.toList).modify (·.deleteHandshake hsId))
  -- public keys
  | learnJoiner {c : Client} {s : Session} (hsId : Handle) (r : HsRecord) (ke : Addr) (d pub : Data)
      (hs : c.session = some s) (hr : Lib.JsMap.get hsId s.handshakes = some r)
      (hke : r.ke = some ke) (hd : a.payload = some d)
      (hpub : openUnderKe (c.read ke) d = some pub) (ho : a.opens c₀ r pub) (id : Handle) :
      Effect a c₀ c (c.modify (·.setPub id pub))
  | learnOwner {c : Client} {s : Session} (hsId : Handle) (r : HsRecord) (ke : Addr) (d pub : Data)
      (hs : c.session = some s) (hr : Lib.JsMap.get hsId s.handshakes = some r)
      (hke : r.ke = some ke) (hd : a.payload = some d)
      (hpub : openUnderKe (c.read ke) d = some pub) (ho : a.opens c₀ r pub) :
      Effect a c₀ c (c.modify fun s => { s with firstOwnerPub := some pub })
  | seedOwner {c : Client} {s : Session} (id : Handle) (pub : Data) (hs : c.session = some s)
      (hpub : s.firstOwnerPub = some pub) :
      Effect a c₀ c (c.modify (·.setPub id pub))
  | mergeRoster {c : Client} {s : Session} (k : Addr) (d json : Data) (es : List (Handle × Data))
      (hs : c.session = some s) (hk : k ∈ s.keys) (hd : a.payload = some d)
      (ht : a.type = some .roster) (hjson : decryptMessage (c.read k) d = some json) (hes : jsonEntries json = some es) :
      Effect a c₀ c (c.modify fun s => { s with memberPubs := mergeRoster s.memberPubs es })
  | forget {c : Client} (ids : List Handle) : Effect a c₀ c (c.modify (·.forget ids))
  -- room keys
  | rotate {c : Client} {s : Session} (hs : c.session = some s) :
      Effect a c₀ c (c.generateRoomKey.1.pushKey c.generateRoomKey.2)
  | takeKey {c : Client} {s : Session} (pub d key : Data) (hs : c.session = some s)
      (hpub : s.knows pub ∨ s.firstOwnerPub = some pub)
      (hd : a.payload = some d ∨ ∃ hsId r, Lib.JsMap.get hsId s.handshakes = some r ∧
        r.pendingKeyDeliver = some d)
      (hkey : openRoomKey (c.read s.kp.priv) pub d = some key)
      (ht : a.type = some .rekey ∨ a.type = some .keyDeliver ∨ a.type = some .memberKey) :
      Effect a c₀ c ((c.alloc key).1.pushKey (c.alloc key).2)
  | sendKey {c : Client} {s : Session} (k : Addr) (pub d : Data) (m : ClientMsg Data) (hs : c.session = some s)
      (hk : s.keys.head? = some k) (hpub : s.knows pub)
      (hnew : ∃ i, (c₀.draws ≤ i ∧ i < c.draws) ∧
        (c.read k = .name (Name.mk c.who i) ∨ (c.heap k).wiped = true))
      (hd : sealRoomKey (c.read s.kp.priv) pub (c.read k) = some d)
      (hm : ∃ id, m = .rekey id d ∨ m = .keyDeliver id d) :
      Effect a c₀ c (c.send m)
  | sendRoster {c : Client} {s : Session} (k : Addr) (hs : c.session = some s) (hk : s.keys.head? = some k) :
      Effect a c₀ c ((c.noteSeal k none).send
        (.roster (encryptMessage (c.read k) (jsonOf (rosterOf s)))))
  -- messages and files
  | chat {c : Client} {s : Session} (k : Addr) (body : Data) (file : Option (String × File)) (hs : c.session = some s)
      (hk : s.keys.head? = some k) (h : a = .submit (some body) file) :
      Effect a c₀ c ((c.noteSeal k none).send (.msg (encryptMessage (c.read k) body)))
  | beginUpload {c : Client} {s : Session} (k : Addr) (transfer : String) (body : Option Data) (file : File)
      (hs : c.session = some s) (hk : s.keys.head? = some k)
      (h : a = .submit body (some (transfer, file))) :
      Effect a c₀ c (c.beginUpload s k transfer file)
  | sendFileStart {c : Client} (u : Nat) (up : Upload) (h : a = .resume u)
      (hu : Lib.JsMap.get u c.uploads = some up) :
      Effect a c₀ c ((c.noteSeal up.key (some up.captured)).send
        (.fileStart up.transfer up.kid (encryptMessage (c.read up.key) up.file.meta)))
  | sendChunk {c : Client} (u : Nat) (up : Upload) (i : Nat) (h : a = .resume u)
      (hu : Lib.JsMap.get u c.uploads = some up) :
      Effect a c₀ c (c.sendChunk u up i)
  | endUpload {c : Client} (u : Nat) : Effect a c₀ c (c.dropUpload u)

variable {a : Act} {c₀ c c' : Client} {s : Session}

/-- What a handler does from its start to its end. -/
def Effects (a : Act) (c₀ : Client) : Client → Client → Prop := Relation.ReflTransGen (Effect a c₀)

/-- An invariant that every effect keeps is kept by a sequence of effects. -/
theorem Effects.invariant {I : Client → Prop} (hI : ∀ c c', I c → Effect a c₀ c c' → I c')
    (h : Effects a c₀ c c') (hc : I c) : I c' := by
  induction h with
  | refl => exact hc
  | tail _ he ih => exact hI _ _ ih he

namespace Client

@[simp] theorem send_draws (c : Client) (m : ClientMsg Data) : (c.send m).draws = c.draws := by
  unfold send
  split
  · split <;> rfl
  · rfl

@[simp] theorem pushKey_draws (c : Client) (k : Addr) : (c.pushKey k).draws = c.draws := by
  unfold pushKey
  split <;> rfl

theorem core_modify {f : Session → Session} (hf : ∀ s, (f s).core = s.core) :
    (c.modify f).core = c.core := by
  unfold core modify
  cases c.session <;> simp [hf]

theorem core_setReady (sock : Nat) (r : ReadyState) : (c.setReady sock r).core = c.core := by
  simp only [core, setReady, mk.injEq, true_and, and_true]
  funext k
  by_cases hk : k = sock <;> simp [hk]

end Client

/-! ## The handlers -/

namespace Effects

theorem one (h : Effect a c₀ c c') : Effects a c₀ c c' := .single h

theorem trans {c'' : Client} (h : Effects a c₀ c c') (h' : Effects a c₀ c' c'') : Effects a c₀ c c'' :=
  Relation.ReflTransGen.trans h h'

theorem idle (h : c'.core = c.core) : Effects a c₀ c c' := .single (.idle h)

/-- A change to what `core` leaves out of the session. -/
theorem idleModify {f : Session → Session} (hf : ∀ s, (f s).core = s.core) :
    Effects a c₀ c (c.modify f) :=
  .idle (Client.core_modify hf)

theorem onVerdict {hsId : Handle} {r : HsRecord} {v : Verdict} (hs : c.session = some s)
    (hr : Lib.JsMap.get hsId s.handshakes = some r)
    (hv : ∀ ke, v = .confirmed ke → ∃ res, r.hs.result = some res ∧ res.ke = ke) :
    Effects a c₀ c (c.onVerdict hsId r v) := by
  cases v with
  | none => exact .refl
  | confirmed ke =>
    obtain ⟨res, hres, rfl⟩ := hv ke rfl
    have hc : Effect a c₀ _ _ := .confirmed hsId r res hs hr hres
    refine .tail (.single hc) ?_
    simp only [Client.onVerdict, Client.modify_session, Client.alloc, hs, Option.map_some]
    exact .sendMemberKey (s := s.setHandshake hsId { r with ke := some c.brk })
      hsId { r with ke := some c.brk } res (by simp) (by simp) hres
  | failed =>
    simp only [Client.onVerdict]
    split
    · exact .one (.endHandshake hsId)
    · exact .one .teardown

/-- What `onData` hands out belongs to the result it has computed. -/
theorem onData_result (h : HandshakeSession) (d : Data) :
    (∀ x, (h.onData d).2.1 = some x → ∃ res, (h.onData d).1.result = some res ∧ res.confirm = x) ∧
      ∀ ke, (h.onData d).2.2 = .confirmed ke →
        ∃ res, (h.onData d).1.result = some res ∧ res.ke = ke := by
  unfold HandshakeSession.onData HandshakeSession.handlePoint HandshakeSession.handleConfirm
    HandshakeSession.verify HandshakeSession.fail
  grind

theorem onPake (msg : ServerMsg Data) (ha : a.payload = msg.data) :
    Effects a c₀ c (c.onPake msg) := by
  unfold Client.onPake
  split
  · rename_i s hsId d hs _ hd
    split
    · exact .refl
    · rename_i r hr
      obtain ⟨hx, hke⟩ := onData_result r.hs d
      refine Effects.trans (.one (.pake hsId r d hs hr (ha.trans hd))) ?_
      generalize hr' : { r with hs := (r.hs.onData d).1 } = r'
      have hs' : (c.modify (·.setHandshake hsId r')).session = some (s.setHandshake hsId r') := by
        simp [hs]
      have hget : Lib.JsMap.get hsId (s.setHandshake hsId r').handshakes = some r' := by simp
      have hhs : (r.hs.onData d).1 = r'.hs := by rw [← hr']
      rw [hhs] at hx hke
      simp only [hr']
      cases hc : (r.hs.onData d).2.1 with
      | none => exact onVerdict hs' hget hke
      | some x =>
        obtain ⟨res, hres, rfl⟩ := hx x hc
        exact Effects.trans (.one (.sendConfirm hsId r' res hs' hget hres))
          (onVerdict (by simpa using hs') hget hke)
  · exact .refl

theorem onInviteCreated (msg : ServerMsg Data) : Effects a c₀ c (c.onInviteCreated msg) := by
  unfold Client.onInviteCreated
  split
  · rename_i s token hs _
    exact .one (.invite token hs)
  · exact .refl

theorem onInviteRedeemed {sock : Nat} (msg : ServerMsg Data) (ht : msg.type = .inviteRedeemed) :
    Effects (.message sock msg) c₀ c (c.onInviteRedeemed msg) := by
  unfold Client.onInviteRedeemed
  split
  · rename_i s hsId token memberId hs hid _ hm
    split
    · exact .refl
    · rename_i code hcode
      exact .one (.offer token hsId memberId code hs hcode
        ⟨sock, msg, rfl, ht, (given_eq_some.mp hid).1, (given_eq_some.mp hm).1⟩)
  · exact .refl

theorem onRedeemOk {sock : Nat} (msg : ServerMsg Data) (ht : msg.type = .redeemOk) :
    Effects (.message sock msg) c₀ c (c.onRedeemOk msg) := by
  unfold Client.onRedeemOk
  split
  · rename_i s hsId token code hs hid hjoin
    have h1 : Effects (.message sock msg) c₀ c
        (c.modify fun s => { s with memberId := msg.memberId.getD empty }) := idleModify fun _ => rfl
    exact h1.tail (.accept (s := { s with memberId := msg.memberId.getD empty }) token hsId code
      (by simp [hs]) hjoin ⟨sock, msg, rfl, ht, (given_eq_some.mp hid).1⟩)
  · exact .refl

/-! ### Rotation -/

/-- A loop whose rounds are effects and keep `I`. -/
theorem forEach {α : Type} {f : Client → α → Client × Bool} {I : Client → Prop}
    (hf : ∀ c x, I c → Effects a c₀ c (f c x).1 ∧ I (f c x).1) :
    ∀ (l : List α) {c : Client}, I c → Effects a c₀ c (forEach f c l).1 ∧ I (forEach f c l).1
  | [], c, hc => ⟨.refl, hc⟩
  | x :: l, c, hc => by
    obtain ⟨he, hI⟩ := hf c x hc
    simp only [Web.forEach]
    split
    · rename_i c' hc'
      rw [hc'] at he hI
      obtain ⟨he', hI'⟩ := forEach hf l hI
      exact ⟨he.trans he', hI'⟩
    · rename_i c' hc'
      rw [hc'] at he hI
      exact ⟨he, hI⟩

/-- A session whose newest key is `k`, drawn since `c₀`. -/
structure Holds (c₀ : Client) (k : Addr) (s : Session) (c : Client) : Prop where
  session : c.session = some s
  head : s.keys.head? = some k
  new : ∃ i, (c₀.draws ≤ i ∧ i < c.draws) ∧
    (c.read k = .name (Name.mk c.who i) ∨ (c.heap k).wiped = true)

theorem Holds.send {k : Addr} (h : Holds c₀ k s c) (m : ClientMsg Data) : Holds c₀ k s (c.send m) :=
  ⟨by simpa using h.session, h.head, by simpa [Client.read] using h.new⟩

theorem sendKey {k : Addr} {pub d : Data} {m : ClientMsg Data} (h : Holds c₀ k s c)
    (hpub : s.knows pub) (hd : sealRoomKey (c.read s.kp.priv) pub (c.read k) = some d)
    (hm : ∃ id, m = .rekey id d ∨ m = .keyDeliver id d) :
    Effects a c₀ c (c.send m) ∧ Holds c₀ k s (c.send m) :=
  ⟨.one (.sendKey k pub d m h.session h.head hpub h.new hd hm), h.send m⟩

theorem rekeyMember {k : Addr} {id : Handle} (h : Holds c₀ k s c) :
    Effects a c₀ c (c.rekeyMember k id).1 ∧ Holds c₀ k s (c.rekeyMember k id).1 := by
  simp only [Client.rekeyMember, h.session]
  split
  · exact ⟨.refl, h⟩
  · rename_i pub hpub
    split
    · rename_i d hd
      exact sendKey h ⟨id, hpub⟩ hd ⟨id, .inl rfl⟩
    · exact ⟨.refl, h⟩

theorem deliverKey {k : Addr} {joinerId : Handle} {pub : Data} (h : Holds c₀ k s c)
    (hpub : s.knows pub) : Effects a c₀ c (c.deliverKey joinerId pub k).1 ∧
      Holds c₀ k s (c.deliverKey joinerId pub k).1 := by
  simp only [Client.deliverKey, h.session]
  split
  · exact ⟨.refl, h⟩
  · rename_i e he
    split
    · rename_i d hd
      exact sendKey h hpub hd ⟨e.1, .inr rfl⟩
    · exact ⟨.refl, h⟩

/-- A new key is pushed: it is now the newest. -/
theorem rotate (hs : c.session = some s) (hd : c₀.draws ≤ c.draws) :
    ∃ s', Effects a c₀ c (c.generateRoomKey.1.pushKey c.generateRoomKey.2) ∧
      Holds c₀ c.generateRoomKey.2 s' (c.generateRoomKey.1.pushKey c.generateRoomKey.2) ∧
      s'.memberPubs = s.memberPubs := by
  refine ⟨_, .one (.rotate hs),
    ⟨Client.pushKey_session (c := c.generateRoomKey.1) (s := s) hs _, rfl, c.draws, ⟨hd, ?_⟩, ?_⟩,
    rfl⟩
  · simp [Client.generateRoomKey, Client.draw, Client.alloc]
  have hs' : c.generateRoomKey.1.session = some s := hs
  simp only [Client.pushKey, hs', Client.wipe, Client.read]
  split
  · exact .inr rfl
  · simp [Client.generateRoomKey, Client.draw, Client.alloc]

theorem rotateForJoin {joinerId : Handle} {pub : Data} (hs : c.session = some s)
    (hpub : s.knows pub) (hd : c₀.draws ≤ c.draws) :
    Effects a c₀ c (c.rotateForJoin joinerId pub).1 := by
  obtain ⟨s', h1, h2, hp⟩ := rotate (a := a) hs hd
  have hpub' : s'.knows pub := by rwa [Session.knows, hp]
  have hdeliver : Effects a c₀ _ _ ∧ Holds c₀ c.generateRoomKey.2 s'
      (Client.deliverKey _ joinerId pub c.generateRoomKey.2).1 := deliverKey h2 hpub'
  obtain ⟨h3, h4⟩ := hdeliver
  simp only [Client.rotateForJoin, hs]
  split
  · rename_i c' hc'
    rw [hc'] at h3
    exact h1.trans h3
  · rename_i c' hc'
    rw [hc'] at h3 h4
    obtain ⟨h5, -⟩ := forEach (I := Holds c₀ c.generateRoomKey.2 s') (a := a)
      (f := Client.rekeyMember c.generateRoomKey.2) (fun c id h => rekeyMember h)
      (s.knownMembers.filter fun id => id ≠ s.memberId ∧ id ≠ joinerId) h4
    split
    · rename_i c'' hc''
      rw [hc''] at h5
      exact (h1.trans h3).trans h5
    · rename_i c'' hc''
      rw [hc''] at h5
      exact ((h1.trans h3).trans h5).trans (idleModify fun _ => rfl)

theorem rotateForLeave {removed current : List Handle} (hs : c.session = some s)
    (hd : c₀.draws ≤ c.draws) : Effects a c₀ c (c.rotateForLeave removed current).1 := by
  have h0 : Effects a c₀ c (c.modify (·.forget removed)) := .one (.forget removed)
  obtain ⟨s', h1, h2, -⟩ := rotate (a := a) (c := c.modify (·.forget removed))
    (s := s.forget removed) (by simp [hs]) hd
  simp only [Client.rotateForLeave, h2.session]
  exact (h0.trans h1).trans (forEach (I := Holds c₀ _ s') (fun c id h => rekeyMember h) _ h2).1

/-! ### Keys of others -/

theorem finishJoin {hsId : Handle} {r : HsRecord} {d : Data} (hs : c.session = some s)
    (hr : Lib.JsMap.get hsId s.handshakes = some r)
    (hd : a.payload = some d ∨ r.pendingKeyDeliver = some d)
    (ht : a.type = some .keyDeliver ∨ a.type = some .memberKey) :
    Effects a c₀ c (c.finishJoin hsId r d) := by
  simp only [Client.finishJoin, hs]
  split
  · exact .refl
  · rename_i pub hpub
    split
    · exact .one .teardown
    · rename_i key hkey
      have h1 : Effect a c₀ c ((c.alloc key).1.pushKey (c.alloc key).2) :=
        .takeKey pub d key hs (.inr hpub) (hd.imp_right fun h => ⟨hsId, r, hr, h⟩) hkey
          (.inr ht)
      have h2 := Client.pushKey_session (c := (c.alloc key).1) (s := s) hs (c.alloc key).2
      exact ((Relation.ReflTransGen.single h1).tail (.wipeKe hsId r h2 hr)).tail
        (.sendPlain _ rfl)

theorem onMemberKey {sock : Nat} (msg : ServerMsg Data) (ht : msg.type = .memberKey) :
    Effects (.message sock msg) c c (c.onMemberKey msg) := by
  unfold Client.onMemberKey
  split
  · rename_i s hsId d hs hid hd
    split
    · exact .refl
    · rename_i r hr
      split
      · exact .refl
      · rename_i ke hke
        split
        · exact .refl
        · rename_i pub hpub
          have ho : (Act.message sock msg).opens c r pub :=
            ⟨sock, msg, rfl, ht, by simp [Client.memberKeyOf, hs, hid, hd, hr, hke, hpub]⟩
          have ha : (Act.message sock msg).payload = some d := hd
          split
          · have h1 : Effects (.message sock msg) c c (c.modify (·.setPub r.joinerMemberId pub)) :=
              .one (.learnJoiner hsId r ke d pub hs hr hke ha hpub ho _)
            have h2 : Effects (.message sock msg) c (c.modify (·.setPub r.joinerMemberId pub))
                ((c.modify (·.setPub r.joinerMemberId pub)).rotateForJoin r.joinerMemberId pub).1 :=
              rotateForJoin (s := s.setPub r.joinerMemberId pub) (by simp [hs])
                ⟨r.joinerMemberId, by simp⟩ le_rfl
            dsimp only
            generalize (c.modify (·.setPub r.joinerMemberId pub)).rotateForJoin r.joinerMemberId pub =
              p at h2 ⊢
            obtain ⟨c', _ | _⟩ := p
            · exact h1.trans h2
            · exact (h1.trans h2).tail (.endHandshake hsId)
          · have h1 : Effects (.message sock msg) c c
                (c.modify fun s => { s with firstOwnerPub := some pub }) :=
              .one (.learnOwner hsId r ke d pub hs hr hke ha hpub ho)
            split
            · rename_i d' hd'
              exact h1.trans (finishJoin (s := { s with firstOwnerPub := some pub }) (by simp [hs]) hr
                (.inr (HsRecord.parked_eq_some.mp hd').1) (.inr (congrArg some ht)))
            · exact h1
  · exact .refl

theorem onKeyDeliver (msg : ServerMsg Data) (ha : a.payload = msg.data)
    (ht : a.type = some .keyDeliver) :
    Effects a c₀ c (c.onKeyDeliver msg) := by
  unfold Client.onKeyDeliver
  split
  · rename_i s hsId d hs _ hd
    split
    · exact .refl
    · rename_i r hr
      split
      · exact .one (.park hsId r d hs hr (ha.trans hd) ht)
      · exact finishJoin hs hr (.inl (ha.trans hd)) (.inl ht)
  · exact .refl

theorem onRekey (msg : ServerMsg Data) (ha : a.payload = msg.data) (ht : a.type = some .rekey) :
    Effects a c₀ c (c.onRekey msg) := by
  unfold Client.onRekey
  split
  · rename_i s d hs hd
    split
    · exact .refl
    · rename_i pub hpub
      split
      · exact .refl
      · rename_i key hkey
        exact .one (.takeKey pub d key hs (.inl ⟨_, hpub⟩) (.inl (ha.trans hd)) hkey (.inl ht))
  · exact .refl

theorem applyRoster {d : Data} (ha : a.payload = some d) (ht : a.type = some .roster) :
    Effects a c₀ c (c.applyRoster d) := by
  unfold Client.applyRoster
  split
  · rename_i es hes
    obtain ⟨json, hjson, hes⟩ := Option.bind_eq_some_iff.mp hes
    obtain ⟨s, hs, hk⟩ := Option.bind_eq_some_iff.mp hjson
    obtain ⟨k, hk, hopen⟩ := List.exists_of_findSome?_eq_some hk
    exact .one (.mergeRoster k d json es hs hk ha ht hopen hes)
  · exact .refl

theorem broadcastRoster : Effects a c₀ c c.broadcastRoster := by
  unfold Client.broadcastRoster
  split
  · exact .refl
  · rename_i s hs
    split
    · rename_i k ks _ hk
      exact .one (.sendRoster k hs (by simp [hk]))
    · exact .refl

theorem onPresence (members : List MemberInfo) : Effects a c c (c.onPresence members) := by
  unfold Client.onPresence
  split
  · exact .refl
  · rename_i s hs
    dsimp only
    -- the owner, the role and the known members are no part of the core
    split
    · exact idleModify fun _ => rfl
    · generalize hknown : (if ownerIdOf members = s.memberId ∧ s.role ≠ .owner then idsOf members
        else s.knownMembers) = known
      generalize hrem : known.filter _ = removed
      have h1 : Effects a c c ((c.modify fun s => { s with
          ownerId := ownerIdOf members
          role := if ownerIdOf members = s.memberId then .owner else .member
          lastMembers := members }).modify fun s => { s with knownMembers := known }) :=
        Effects.trans (idleModify (by intro _; rfl)) (idleModify (by intro _; rfl))
      refine h1.trans ?_
      generalize hc' : Client.modify (Client.modify c _) _ = c'
      have hs' : ∃ s', c'.session = some s' := by simp [← hc', hs]
      obtain ⟨s', hs'⟩ := hs'
      have h2 : Effects a c c' (if removed = [] then (c', true)
          else c'.rotateForLeave removed (idsOf members)).1 := by
        split
        · exact .refl
        · exact rotateForLeave hs' (by simp [← hc', Client.modify])
      split
      · rename_i c'' hc''
        rw [hc''] at h2
        exact h2
      · rename_i c'' hc''
        rw [hc''] at h2
        exact (h2.trans (idleModify (by intro _; rfl))).trans broadcastRoster

theorem onWelcome (msg : ServerMsg Data) : Effects a c₀ c (c.onWelcome msg) := by
  cases hs : c.session with
  | none => exact .idle (by simp [Client.onWelcome, Client.modify, Client.core, hs])
  | some s =>
    have hidle : s.firstOwnerPub = none ∨ ownerIdOf (msg.members.getD []) = empty →
        Effects a c₀ c (c.onWelcome msg) := fun h => .idle (by
      rcases h with h | h <;>
        cases hp : s.firstOwnerPub <;>
          simp_all [Client.onWelcome, Client.modify, Client.core, Session.core])
    cases hpub : s.firstOwnerPub with
    | none => exact hidle (.inl hpub)
    | some pub =>
      by_cases ho : ownerIdOf (msg.members.getD []) = empty
      · exact hidle (.inr ho)
      · refine Effects.trans (.one (.seedOwner (ownerIdOf (msg.members.getD [])) pub hs hpub))
          (.idle ?_)
        simp [Client.onWelcome, Client.modify, Client.core, hs, Session.core, hpub, ho]

theorem handleError (msg : ServerMsg Data) : Effects a c₀ c (c.handleError msg) := by
  unfold Client.handleError
  split
  · exact .refl
  · split
    · exact .one .teardown
    · split
      · split
        · exact .refl
        · exact .one .teardown
      · exact .one .teardown

theorem onClose : Effects a c₀ c c.onClose := by
  unfold Client.onClose
  dsimp only
  split
  · exact Effects.trans (.one .teardown) (.idle rfl)
  · split
    · exact Effects.trans (.one .teardown) (.idle rfl)
    · exact .idle rfl

theorem onMessage {sock : Nat} {msg : ServerMsg Data} :
    Effects (.message sock msg) c c (c.onMessage msg) := by
  unfold Client.onMessage
  split
  · exact onWelcome msg
  · exact onPresence _
  · exact onInviteCreated msg
  · exact onInviteRedeemed msg ‹_›
  · exact onRedeemOk msg ‹_›
  · exact onPake msg rfl
  · exact onMemberKey msg ‹_›
  · exact onKeyDeliver msg rfl (congrArg some ‹_›)
  · exact onRekey msg rfl (congrArg some ‹_›)
  · rename_i ht
    split
    · rename_i d hd
      exact applyRoster hd (congrArg some ht)
    · exact .refl
  · have h : Effects (.message sock msg) c c { c with intentionalClose := true } := .idle rfl
    exact h.tail .teardown
  · exact handleError msg
  all_goals exact .refl

/-! ### The user and the tasks -/

theorem submit {body : Option Data} {file : Option (String × File)} :
    Effects (.submit body file) c₀ c (c.submit body file) := by
  unfold Client.submit
  split
  · exact .refl
  · rename_i s hs
    split
    · exact .refl
    · rename_i k ks hk
      have hhead : s.keys.head? = some k := by simp [hk]
      -- the text first, then the file, which starts under the same key
      have h1 : Effects (.submit body file) c₀ c (c.sendText k body) ∧
          (c.sendText k body).session = some s := by
        cases body with
        | none => exact ⟨.refl, hs⟩
        | some body =>
          exact ⟨.one (.chat k body file hs hhead rfl), by simpa [Client.sendText] using hs⟩
      cases file with
      | none => exact h1.1
      | some f => exact h1.1.tail (.beginUpload k f.1 body f.2 h1.2 hhead rfl)

theorem resume {u : Nat} {up : Upload} (hu : Lib.JsMap.get u c.uploads = some up) :
    Effects (.resume u) c₀ c (c.resume u up) := by
  unfold Client.resume
  split
  · have h1 : Effect (.resume u) c₀ c ((c.noteSeal up.key (some up.captured)).send
        (.fileStart up.transfer up.kid (encryptMessage (c.read up.key) up.file.meta))) :=
      .sendFileStart u up rfl hu
    exact (Relation.ReflTransGen.single h1).tail
      (.sendChunk u up 0 rfl (by simpa using hu))
  · rename_i i _
    split
    · exact .one (.endUpload u)
    · split
      · exact .one (.sendChunk u up i rfl hu)
      · exact Effects.trans (.one (.sendPlain _ rfl)) (.one (.endUpload u))

theorem doLeave : Effects a c₀ c c.doLeave := by
  have h : Effects a c₀ c { c with intentionalClose := true } := .idle rfl
  exact (h.tail (.sendPlain .leave rfl)).tail .teardown

theorem memberAction {m : ClientMsg Data} (hm : plain m) : Effects a c₀ c (c.memberAction m) := by
  unfold Client.memberAction
  split
  · exact .one (.sendPlain m hm)
  · exact .refl

theorem beginConnect {hello : ClientMsg Data} (h : plain hello) :
    Effects a c₀ c (c.beginConnect hello) := by
  unfold Client.beginConnect
  dsimp only
  split
  · exact Effects.trans (.one .teardown) (.one (.beginConnect hello h))
  · exact .one (.beginConnect hello h)

theorem endConnect {i : Nat} {hello : ClientMsg Data} (h : c.connects[i]? = some hello) :
    Effects a c₀ c ({ c with connects := c.connects.eraseIdx i }.endConnect hello) := by
  have h1 : Effect a c₀ _ _ := .openSession i hello h
  unfold Client.endConnect
  split
  · exact (Relation.ReflTransGen.single h1).tail (.firstKey rfl rfl)
  · exact .one h1

theorem recoverIfSocketDead : Effects a c₀ c c.recoverIfSocketDead := by
  unfold Client.recoverIfSocketDead
  split
  · split
    · have h : Effects a c₀ c { c with intentionalClose := false } := .idle rfl
      exact h.trans onClose
    · exact .refl
  · exact .refl

end Effects

/-- Every event is a sequence of effects. -/
theorem step_effects (h : c.step a = some c') : Effects a c c c' := by
  cases a <;> simp only [Client.step] at h
  case create => cases h; exact .beginConnect rfl
  case join token code nick session =>
    cases h
    exact Effects.trans (.one (.submitInvite token code nick session rfl)) (.beginConnect rfl)
  case connected i =>
    split at h
    · rename_i hello hi
      cases h
      exact .endConnect hi
    · simp at h
  case submit => cases h; exact .submit
  case resume u =>
    obtain ⟨up, hu, rfl⟩ := Option.map_eq_some_iff.mp h
    exact .resume hu
  case invite => cases h; exact .one (.sendPlain .invite rfl)
  case makeOwner => cases h; exact .memberAction rfl
  case kick => cases h; exact .memberAction rfl
  case leave =>
    split at h
    · cases h; exact .doLeave
    · simp at h
  case transferLeave target =>
    cases h
    exact Effects.trans (.one (.sendPlain (.transfer target) rfl)) .doLeave
  case unload => cases h; exact .one (.sendPlain .leave rfl)
  case opened sock =>
    split at h
    · cases h
      refine Effects.trans (.one (.opened sock)) (.idle ?_)
      exact Client.core_setReady
        (c := { c with outbox := c.outbox ++ [(sock, (c.socket sock).hello)] }) sock .open
    · simp at h
  case message =>
    split at h
    · cases h; exact .onMessage
    · simp at h
  case closing sock =>
    split at h
    · cases h
      refine .idle ?_
      unfold Client.closeSocket
      split
      · rfl
      · exact Client.core_setReady sock .closing
    · simp at h
  case closed sock =>
    split at h
    · cases h
      have h1 : Effects (.closed sock) c c (c.setReady sock .closed) :=
        .idle (Client.core_setReady sock .closed)
      exact h1.trans .onClose
    · simp at h
  case visible => cases h; exact .recoverIfSocketDead

/-! ## Random values -/

namespace Client

@[simp] theorem pushKey_who (c : Client) (k : Addr) : (c.pushKey k).who = c.who := by
  unfold pushKey
  split <;> rfl

@[simp] theorem teardown_draws (c : Client) : c.teardown.draws = c.draws := by
  unfold teardown closeSocket
  split
  · rfl
  · split <;> rfl

@[simp] theorem teardown_who (c : Client) : c.teardown.who = c.who := by
  unfold teardown closeSocket
  split
  · rfl
  · split <;> rfl

end Client

/-- A tab draws, and stays the same client. -/
theorem Effect.draws (h : Effect a c₀ c c') : c.draws ≤ c'.draws ∧ c'.who = c.who := by
  cases h with
  | idle h =>
    have hd : c'.core.draws = c.core.draws := congrArg Client.draws h
    have hw : c'.core.who = c.core.who := congrArg Client.who h
    exact ⟨hd.ge, hw⟩
  | firstKey hs hk =>
    simp [Client.firstKey_eq hs hk, Client.generateRoomKey, Client.draw, Client.alloc]
  | offer | accept => simp [Client.beginHandshake, Client.draw, Client.modify]
  | openSession => simp [Client.openSession, Client.generateKeyPair, Client.draw, Client.alloc]
  | rotate | takeKey => simp [Client.generateRoomKey, Client.draw, Client.alloc]
  | _ => simp [Client.modify, Client.draw, Client.alloc, Client.wipe, Client.noteSeal,
      Client.sendChunk, Client.beginUpload, Client.dropUpload]

theorem step_draws (h : c.step a = some c') : c.draws ≤ c'.draws ∧ c'.who = c.who :=
  (step_effects h).invariant (I := fun x => c.draws ≤ x.draws ∧ x.who = c.who)
    (fun _ _ hc he => ⟨hc.1.trans he.draws.1, he.draws.2.trans hc.2⟩) ⟨le_rfl, rfl⟩

/-! ## What has been sent -/

namespace Client

theorem send_outbox (c : Client) (m : ClientMsg Data) : c.outbox <+: (c.send m).outbox := by
  unfold send
  split
  · split
    · exact List.prefix_append _ _
    · exact List.prefix_rfl
  · exact List.prefix_rfl

@[simp] theorem pushKey_outbox (c : Client) (k : Addr) : (c.pushKey k).outbox = c.outbox := by
  unfold pushKey
  split <;> rfl

@[simp] theorem teardown_outbox (c : Client) : c.teardown.outbox = c.outbox := by
  unfold teardown closeSocket
  split
  · rfl
  · split <;> rfl

end Client

theorem Effect.outbox (h : Effect a c₀ c c') : c.outbox <+: c'.outbox := by
  cases h with
  | idle h =>
    have he : c'.core.outbox = c.core.outbox := congrArg Client.outbox h
    exact he ▸ List.prefix_rfl
  | sendPlain m | sendConfirm _ _ res | sendMemberKey _ _ res | sendKey _ _ _ m =>
    exact c.send_outbox _
  | opened sock => exact List.prefix_append _ _
  | firstKey hs hk => simp [Client.firstKey_eq hs hk, Client.generateRoomKey, Client.draw, Client.alloc]
  | teardown => simp
  | offer token hsId memberId code hs hc =>
    exact Client.send_outbox (Client.draw (c.modify fun s => { s with
      pendingInvites := Lib.JsMap.delete token s.pendingInvites })).1 _
  | accept token hsId code hs hc =>
    exact Client.send_outbox (Client.draw { c with pendingJoin := none }).1 _
  | rotate hs => simp [Client.generateRoomKey, Client.draw, Client.alloc]
  | takeKey pub d key => simp [Client.alloc]
  | sendRoster k | chat k => exact (c.noteSeal k none).send_outbox _
  | sendFileStart u up | sendChunk u up =>
    exact (c.noteSeal up.key (some up.captured)).send_outbox _
  | _ => exact List.prefix_rfl

theorem step_outbox (h : c.step a = some c') : c.outbox <+: c'.outbox :=
  (step_effects h).invariant (I := fun x => c.outbox <+: x.outbox)
    (fun _ _ hc he => hc.trans he.outbox) List.prefix_rfl

end E2EAnon.Web
