import E2EAnon.Net.Secrets
import E2EAnon.Web.Guess
import E2EAnon.Web.Posts

/-!
# What a tab's frames say about it

The frames of a handshake are made from the tab's own side of it: a point with a scalar it has drawn,
the confirmation of a result it has computed, its public key under that result's `Ke`; and a room key
goes out under the tab's private key (`Attests`). `Attested V c` ties that to what the tab holds: each
record has the state it was started with, its `ke` buffer holds the result's `Ke`, and the owner's
public key was opened under such a `Ke`. `V` is what has arrived.
-/

namespace E2EAnon.Net

open Web
open Relay (clientPayloads)
open Lib (JsMap)

/-- The state of a handshake session that the tab `who` has started: the scalar is one of its draws,
and the code is secret. -/
structure Party (who : Nat) (hsId : Handle) (st : Spake2State) : Prop where
  made : ∃ idx, st = start st.role st.code hsId (.name (Name.mk who idx))
  code : Secret st.code

/-- A result that a session of `who` has computed. -/
def Outcome (who : Nat) (hsId : Handle) (st : Spake2State) (res : Spake2Result) : Prop :=
  Party who hsId st ∧ ∃ p, finish st p = some res

/-- What a frame says about the tab that has sent it. -/
def Attests (who : Nat) : ClientMsg Data → Prop
  | .pake hsId d => (∃ x, d = pakeFrame .pakeM (.tag .point x)) ∨
      ∃ st res, Outcome who hsId st res ∧ d = pakeFrame .pakeC res.confirm
  | .memberKey hsId d => ∃ st res n, Outcome who hsId st res ∧
      d = sealUnderKe res.ke (.pub (Name.mk who n))
  | .keyDeliver _ d | .rekey _ d => ∃ n pub key, sealRoomKey (.name (Name.mk who n)) pub key = some d
  | _ => True

/-- A record of the tab `who`, and the buffer of its `Ke`. -/
structure Genuine (V : Data → Prop) (who : Nat) (heap : Addr → Buffer) (hsId : Handle)
    (r : HsRecord) : Prop where
  party   : Party who hsId r.hs.state
  result  : ∀ res, r.hs.result = some res → ∃ p, finish r.hs.state p = some res
  pending : ∀ d, r.hs.pendingPeerConfirm = some d → V d
  ke      : ∀ x, r.ke = some x → ∃ res, r.hs.result = some res ∧ (heap x).bytes = res.ke

structure Attested (V : Data → Prop) (c : Client) : Prop where
  pair   : ∀ s, c.session = some s → ∃ n, s.kp.pub = .pub (Name.mk c.who n) ∧
    (c.heap s.kp.priv).bytes = .name (Name.mk c.who n)
  record : ∀ s hsId r, c.session = some s → JsMap.get hsId s.handshakes = some r →
    Genuine V c.who c.heap hsId r
  first  : ∀ s pub, c.session = some s → s.firstOwnerPub = some pub →
    ∃ hsId st res, Outcome c.who hsId st res ∧ V (sealUnderKe res.ke pub)
  outbox : ∀ m ∈ c.outbox, Attests c.who m.2

variable {A V W : Data → Prop} {a : Act} {c₀ c c' : Client} {s : Session} {hsId : Handle}
  {r : HsRecord} {m : ClientMsg Data} {who : Nat} {heap : Addr → Buffer}

/-! ## Building blocks -/

theorem attests_plain (h : plain m) : Attests who m := by
  cases m <;> trivial

theorem party_start {code : Data} (h : Secret code) (role : PakeRole) (hsId : Handle)
    (idx : Nat) : Party who hsId (start role code hsId (.name (Name.mk who idx))) :=
  ⟨⟨idx, rfl⟩, h⟩

theorem Genuine.outcome (h : Genuine V who heap hsId r) {res : Spake2Result}
    (hres : r.hs.result = some res) : Outcome who hsId r.hs.state res :=
  ⟨h.party, h.result res hres⟩

/-- What is opened with the record's buffer has been sealed under the result's `Ke`. -/
theorem Genuine.opened (h : Genuine V who heap hsId r) {x : Addr} (hx : r.ke = some x) {d pub : Data}
    (hpub : openUnderKe (heap x).bytes d = some pub) :
    ∃ res, r.hs.result = some res ∧ Outcome who hsId r.hs.state res ∧ d = sealUnderKe res.ke pub := by
  obtain ⟨res, hres, hread⟩ := h.ke x hx
  exact ⟨res, hres, h.outcome hres, openUnderKe_eq_some.mp (hread ▸ hpub)⟩

theorem Genuine.mono (h : ∀ d, V d → W d) (hr : Genuine V who heap hsId r) :
    Genuine W who heap hsId r :=
  { hr with pending := fun d hd => h d (hr.pending d hd) }

theorem Attested.mono (h : ∀ d, V d → W d) (hc : Attested V c) : Attested W c :=
  { hc with
    record := fun s hsId r hs hr => (hc.record s hsId r hs hr).mono h
    first := fun s pub hs hpub => by
      obtain ⟨hsId, st, res, hout, hv⟩ := hc.first s pub hs hpub
      exact ⟨hsId, st, res, hout, h _ hv⟩ }

/-- The record's buffer is what it was. -/
theorem Genuine.of_heap {heap' : Addr → Buffer} (h : Genuine V who heap hsId r)
    (hheap : ∀ x, r.ke = some x → heap' x = heap x) : Genuine V who heap' hsId r :=
  { h with ke := fun x hx => hheap x hx ▸ h.ke x hx }

/-- What a call of `onData` does to the result and to a confirmation that has come too early. -/
theorem onData_keeps (h : HandshakeSession) (d : Data) :
    (∀ res, h.result = some res → (h.onData d).1.result = some res) ∧
      ∀ pc, (h.onData d).1.pendingPeerConfirm = some pc →
        h.pendingPeerConfirm = some pc ∨ d = pakeFrame .pakeC pc := by
  unfold HandshakeSession.onData HandshakeSession.handlePoint HandshakeSession.handleConfirm
    HandshakeSession.verify HandshakeSession.fail pakeFrame
  grind

/-- A session confirms only what its peer has confirmed: in this call or in an earlier one. -/
theorem onData_confirms {h : HandshakeSession} {d ke : Data} (hv : (h.onData d).2.2 = .confirmed ke) :
    ∃ res, (h.onData d).1.result = some res ∧ res.ke = ke ∧
      (d = pakeFrame .pakeC res.peerConfirm ∨ h.pendingPeerConfirm = some res.peerConfirm) := by
  revert hv
  unfold HandshakeSession.onData HandshakeSession.handlePoint HandshakeSession.handleConfirm
    HandshakeSession.verify HandshakeSession.fail pakeFrame
  grind

theorem Genuine.onData (h : Genuine V who heap hsId r) {d : Data}
    (hd : ∀ pc, d = pakeFrame .pakeC pc → V pc) :
    Genuine V who heap hsId { r with hs := (r.hs.onData d).1 } := by
  obtain ⟨hstate, hnew⟩ := onData_new r.hs d
  obtain ⟨hkeep, hpend⟩ := onData_keeps r.hs d
  refine ⟨hstate ▸ h.party, fun res hres => ?_, fun pc hpc => ?_, fun x hx => ?_⟩
  · rw [hstate]
    obtain hold | hfin := hnew res hres
    · exact h.result res hold
    · exact hfin
  · obtain hold | he := hpend pc hpc
    · exact h.pending pc hold
    · exact hd pc he
  · obtain ⟨res, hres, hke⟩ := h.ke x hx
    exact ⟨res, hkeep res hres, hke⟩

/-! ## What the operations of the tab keep -/

namespace Attested

/-- The session may lose records; the buffers it refers to are as they were. -/
theorem still (h : Attested V c) (hwho : c'.who = c.who)
    (hses : ∀ s', c'.session = some s' → ∃ s, c.session = some s ∧ s'.kp = s.kp ∧
      s'.firstOwnerPub = s.firstOwnerPub ∧ c'.heap s'.kp.priv = c.heap s'.kp.priv ∧
      ∀ hsId r, JsMap.get hsId s'.handshakes = some r → JsMap.get hsId s.handshakes = some r ∧
        ∀ x, r.ke = some x → c'.heap x = c.heap x)
    (hout : c'.outbox = c.outbox) : Attested V c' := by
  constructor
  case pair =>
    intro s' hs'
    obtain ⟨s, hs, hkp, -, hpriv, -⟩ := hses s' hs'
    rw [hpriv, hwho, hkp]
    exact h.pair s hs
  case record =>
    intro s' hsId r hs' hr
    obtain ⟨s, hs, -, -, -, hrec⟩ := hses s' hs'
    obtain ⟨hr, hheap⟩ := hrec hsId r hr
    exact hwho ▸ (h.record s hsId r hs hr).of_heap hheap
  case first =>
    intro s' pub hs' hpub
    obtain ⟨s, hs, -, hfirst, -⟩ := hses s' hs'
    rw [hwho]
    exact h.first s pub hs (hfirst ▸ hpub)
  case outbox => exact fun m hm => hwho ▸ h.outbox m (hout ▸ hm)

/-- Nothing it says anything about has changed. -/
theorem of_eq (h : Attested V c) (hwho : c'.who = c.who) (hheap : c'.heap = c.heap)
    (hses : ∀ s', c'.session = some s' → ∃ s, c.session = some s ∧ s'.kp = s.kp ∧
      s'.firstOwnerPub = s.firstOwnerPub ∧ s'.handshakes = s.handshakes)
    (hout : c'.outbox = c.outbox) : Attested V c' := by
  refine h.still hwho (fun s' hs' => ?_) hout
  obtain ⟨s, hs, hkp, hfirst, hhs⟩ := hses s' hs'
  exact ⟨s, hs, hkp, hfirst, hheap ▸ rfl, fun hsId r hr => ⟨hhs ▸ hr, fun x _ => hheap ▸ rfl⟩⟩

theorem idle (h : Attested V c) (he : c'.core = c.core) : Attested V c' := by
  simp only [Client.core, Client.mk.injEq] at he
  obtain ⟨hwho, -, hheap, -, hses, -, -, -, -, -, -, -, hout, -, -, -⟩ := he
  refine h.of_eq hwho hheap (fun s' hs' => ?_) hout
  rw [hs', Option.map_some] at hses
  obtain ⟨s, hs, hss⟩ := Option.map_eq_some_iff.mp hses.symm
  exact ⟨s, hs, (congrArg Session.kp hss).symm, (congrArg Session.firstOwnerPub hss).symm,
    (congrArg Session.handshakes hss).symm⟩

theorem send (h : Attested V c) (hm : Attests c.who m) : Attested V (c.send m) := by
  unfold Client.send
  split
  · split
    · refine { h with outbox := fun m' hm' => ?_ }
      obtain hm' | hm' := List.mem_append.mp hm'
      · exact h.outbox m' hm'
      · obtain rfl := List.mem_singleton.mp hm'
        exact hm
    · exact h
  · exact h

theorem draw (h : Attested V c) : Attested V c.draw.1 :=
  h.of_eq rfl rfl (fun s hs => ⟨s, hs, rfl, rfl, rfl⟩) rfl

theorem noteSeal (h : Attested V c) (k : Addr) (cap : Option Data) : Attested V (c.noteSeal k cap) :=
  h.of_eq rfl rfl (fun s hs => ⟨s, hs, rfl, rfl, rfl⟩) rfl

/-- The key pair and the records stay. -/
theorem modifySame (h : Attested V c) (f : Session → Session) (hf : ∀ s, (f s).kp = s.kp ∧
    (f s).firstOwnerPub = s.firstOwnerPub ∧ (f s).handshakes = s.handshakes) :
    Attested V (c.modify f) :=
  h.of_eq rfl rfl (fun s' hs' => by
    obtain ⟨s, hs, rfl⟩ := Option.map_eq_some_iff.mp hs'
    exact ⟨s, hs, hf s⟩) rfl

theorem setHandshake (h : Attested V c) (hr : Genuine V c.who c.heap hsId r) :
    Attested V (c.modify (·.setHandshake hsId r)) where
  pair s' hs' := by
    obtain ⟨s, hs, rfl⟩ := Option.map_eq_some_iff.mp hs'
    exact h.pair s hs
  record s' hsId' r' hs' hr' := by
    obtain ⟨s, hs, rfl⟩ := Option.map_eq_some_iff.mp hs'
    simp only [Session.setHandshake_handshakes, JsMap.get_set] at hr'
    split at hr'
    · rename_i he
      cases he
      exact Option.some.inj hr' ▸ hr
    · exact h.record s hsId' r' hs hr'
  first s' pub hs' hpub := by
    obtain ⟨s, hs, rfl⟩ := Option.map_eq_some_iff.mp hs'
    exact h.first s pub hs hpub
  outbox := h.outbox

/-- A record goes, and the buffers in `as` are wiped, which the session no longer refers to. -/
theorem deleteHandshake (h : Attested V c) (hsId : Handle) (as : List Addr)
    (has : ∀ s, c.session = some s → ∀ x ∈ (s.deleteHandshake hsId).buffers, x ∉ as) :
    Attested V ((c.wipe as).modify (·.deleteHandshake hsId)) := by
  have hheap {x : Addr} (hx : x ∉ as) : (c.wipe as).heap x = c.heap x := if_neg hx
  refine h.still rfl (fun s' hs' => ?_) rfl
  obtain ⟨s, hs, rfl⟩ := Option.map_eq_some_iff.mp hs'
  refine ⟨s, hs, rfl, rfl, hheap (has s hs _ (by simp [Session.buffers])), fun hsId' r' hr' => ?_⟩
  refine ⟨?_, fun x hx => hheap (has s hs x (Session.mem_buffers_ke hr' hx))⟩
  simp only [Session.deleteHandshake_handshakes, JsMap.get_delete] at hr'
  split at hr'
  · cases hr'
  · exact hr'

theorem alloc (h : Attested V c) (hk : KeysOk False c) (b : Data) : Attested V (c.alloc b).1 := by
  have hheap {s : Session} (hs : c.session = some s) {x : Addr} (hx : x ∈ s.buffers) :
      (c.alloc b).1.heap x = c.heap x :=
    Function.update_of_ne (hk.below s hs x hx).ne _ _
  refine h.still rfl (fun s hs => ⟨s, hs, rfl, rfl, hheap hs (by simp [Session.buffers]), ?_⟩) rfl
  exact fun hsId r hr => ⟨hr, fun x hx => hheap hs (Session.mem_buffers_ke hr hx)⟩

/-- A room key is pushed: the private key and the `Ke`s are in buffers of their own. -/
theorem pushNew (h : Attested V c) (hk : KeysOk False c) (hs : c.session = some s) (b : Data) :
    Attested V ((c.alloc b).1.pushKey (c.alloc b).2) := by
  have hs' := Client.pushKey_session (c := (c.alloc b).1) hs (c.alloc b).2
  have hnodup := hk.nodup s hs
  have hheap {x : Addr} (hx : x ∈ s.buffers) (hkey : x ∉ s.keys) :
      ((c.alloc b).1.pushKey (c.alloc b).2).heap x = c.heap x := by
    have hne : x ≠ c.brk := (hk.below s hs x hx).ne
    have hdrop : x ∉ (c.brk :: s.keys).drop maxKeptKeys := fun hm =>
      (List.mem_cons.mp (List.mem_of_mem_drop hm)).elim hne hkey
    simp [Client.pushKey, Client.alloc, Client.wipe, hs, hne, hdrop]
  simp only [Session.buffers, List.cons_append, List.nodup_cons, List.mem_append, not_or,
    List.nodup_append] at hnodup
  refine h.still ?_ (fun s₁ hs₁ => ?_) (Client.pushKey_outbox _ _)
  · simp [Client.pushKey, Client.alloc, Client.wipe, hs]
  · cases hs'.symm.trans hs₁
    refine ⟨s, hs, rfl, rfl, hheap (by simp [Session.buffers]) hnodup.1.1, fun hsId r hr => ?_⟩
    refine ⟨hr, fun x hx => hheap (Session.mem_buffers_ke hr hx) fun hkey => ?_⟩
    exact hnodup.2.2.2 x hkey x (List.mem_filterMap.mpr ⟨_, JsMap.mem_of_get hr, hx⟩) rfl

theorem rotate (h : Attested V c) (hk : KeysOk False c) (hs : c.session = some s) :
    Attested V (c.generateRoomKey.1.pushKey c.generateRoomKey.2) :=
  pushNew (c := c.draw.1) h.draw (hk.narrow Narrow.draw) hs _

theorem openSession (h : Attested V c) (hello : ClientMsg Data) :
    Attested V (c.openSession hello) where
  pair s hs := by
    cases hs
    exact ⟨c.draws, rfl, by simp [Client.openSession, Client.generateKeyPair, Client.draw,
      Client.alloc]⟩
  record s hsId r hs hr := by
    cases hs
    cases hr
  first s pub hs hpub := by
    cases hs
    cases hpub
  outbox := h.outbox

theorem beginHandshake (h : Attested V c) (pr : PakeRole) (role : HsRole) {code : Data}
    (hcode : Secret code) (hsId joinerId : Handle) :
    Attested V (c.beginHandshake pr role code hsId joinerId) := by
  have hframe : Attests c.who (.pake hsId (pakeFrame .pakeM
      (HandshakeSession.new pr code hsId c.draw.2).state.message)) := .inl ⟨_, rfl⟩
  refine setHandshake (c := c.draw.1.send _) (h.draw.send hframe) ⟨?_, nofun, nofun, nofun⟩
  rw [Client.send_who]
  exact party_start hcode pr hsId c.draws

/-- The owner's public key has been opened under a `Ke`. -/
theorem learnOwner (h : Attested V c) (pub : Data) {st : Spake2State} {res : Spake2Result}
    (hout : Outcome c.who hsId st res) (hV : V (sealUnderKe res.ke pub)) :
    Attested V (c.modify fun s => { s with firstOwnerPub := some pub }) where
  pair s' hs' := by
    obtain ⟨s, hs, rfl⟩ := Option.map_eq_some_iff.mp hs'
    exact h.pair s hs
  record s' hsId' r hs' hr := by
    obtain ⟨s, hs, rfl⟩ := Option.map_eq_some_iff.mp hs'
    exact h.record s hsId' r hs hr
  first s' pub' hs' hpub := by
    obtain ⟨s, hs, rfl⟩ := Option.map_eq_some_iff.mp hs'
    cases hpub
    exact ⟨hsId, st, res, hout, hV⟩
  outbox := h.outbox

/-- The buffer that `finishJoin` wipes is the record's own. -/
theorem not_wiped (hk : KeysOk False c) (hs : c.session = some s)
    (hr : JsMap.get hsId s.handshakes = some r) {x : Addr}
    (hx : x ∈ (s.deleteHandshake hsId).buffers) : x ∉ r.ke.toList := by
  intro hke
  have hke' : r.ke = some x := by simpa using hke
  have hnodup := hk.nodup s hs
  have hmem : x ∈ s.handshakes.filterMap (·.2.ke) :=
    List.mem_filterMap.mpr ⟨_, JsMap.mem_of_get hr, hke'⟩
  obtain hx | hx := List.mem_append.mp hx
  · exact List.disjoint_of_nodup_append hnodup hx hmem
  · exact JsMap.not_mem_filterMap_delete (List.nodup_append.mp hnodup).2.1 hr hke' hx

/-- An effect of an event, as far as the frame it brings has arrived. -/
theorem effect (h : Attested V c) (hA : (∃ sock msg, a = .message sock msg) → Kept A c)
    (hk : KeysOk False c) (hh : Hellos c) (he : Effect a c₀ c c') (hd : ∀ d, a.payload = some d → V d)
    (hV : ∀ pc, V (pakeFrame .pakeC pc) → V pc) : Attested V c' := by
  cases he with
  | idle he => exact h.idle he
  | sendPlain m hm => exact h.send (attests_plain hm)
  | opened sock =>
    refine { h with outbox := fun m hm => ?_ }
    obtain hm | hm := List.mem_append.mp hm
    · exact h.outbox m hm
    · obtain rfl := List.mem_singleton.mp hm
      exact hh.all (P := Attests c.who) trivial (fun _ => attests_plain) sock
  | beginConnect | dropJoin | submitInvite | beginUpload | endUpload =>
    exact h.of_eq rfl rfl (fun s hs => ⟨s, hs, rfl, rfl, rfl⟩) rfl
  | openSession i hello hi =>
    exact openSession (c := { c with connects := c.connects.eraseIdx i })
      (h.of_eq rfl rfl (fun s hs => ⟨s, hs, rfl, rfl, rfl⟩) rfl) hello
  | firstKey hs hkeys => exact Client.firstKey_eq hs hkeys ▸ h.rotate hk hs
  | teardown =>
    refine h.still ?_ (fun s' hs' => by simp at hs') (Client.teardown_outbox c)
    unfold Client.teardown Client.closeSocket
    split
    · rfl
    · split <;> rfl
  | invite token hs => exact h.draw.modifySame _ fun _ => ⟨rfl, rfl, rfl⟩
  | offer token hsId memberId code hs hcode ha =>
    obtain ⟨sock, msg, hmsg, -⟩ := ha
    have h1 : Attested V (c.modify fun s => { s with
        pendingInvites := JsMap.delete token s.pendingInvites }) := h.modifySame _ fun _ => ⟨rfl, rfl, rfl⟩
    exact h1.beginHandshake _ _ ((hA ⟨sock, msg, hmsg⟩).invites _ token code hs hcode) _ _
  | accept token hsId code hs hcode ha =>
    obtain ⟨sock, msg, hmsg, -⟩ := ha
    have h1 : Attested V { c with pendingJoin := none } :=
      h.of_eq rfl rfl (fun s hs => ⟨s, hs, rfl, rfl, rfl⟩) rfl
    exact h1.beginHandshake _ _ ((hA ⟨sock, msg, hmsg⟩).joining token code hcode) _ _
  | pake hsId r d hs hrec hd' =>
    exact h.setHandshake ((h.record _ hsId r hs hrec).onData fun pc he => hV pc (he ▸ hd d hd'))
  | sendConfirm hsId r res hs hrec hres =>
    exact h.send (.inr ⟨_, res, (h.record _ hsId r hs hrec).outcome hres, rfl⟩)
  | confirmed hsId r res hs hrec hres =>
    have hr := h.record _ hsId r hs hrec
    refine (h.alloc hk res.ke).setHandshake { hr with ke := fun x hx => ⟨res, hres, ?_⟩ }
    cases hx
    simp [Client.alloc]
  | sendMemberKey hsId r res hs hrec hres =>
    obtain ⟨n, hpub, -⟩ := h.pair _ hs
    exact h.send ⟨_, res, n, (h.record _ hsId r hs hrec).outcome hres, by rw [hpub]⟩
  | endHandshake hsId => exact h.deleteHandshake hsId [] fun _ _ _ _ => List.not_mem_nil
  | park hsId r d hs hrec hd' => exact h.setHandshake { h.record _ hsId r hs hrec with }
  | wipeKe hsId r hs hrec =>
    refine h.deleteHandshake hsId _ fun s' hs' x hx => ?_
    cases hs.symm.trans hs'
    exact not_wiped hk hs hrec hx
  | learnJoiner | forget | mergeRoster | seedOwner => exact h.modifySame _ fun _ => ⟨rfl, rfl, rfl⟩
  | learnOwner hsId r ke d pub hs hrec hke hd' hpub ho =>
    obtain ⟨res, -, hout, he⟩ := (h.record _ hsId r hs hrec).opened hke hpub
    exact h.learnOwner pub hout (he ▸ hd d hd')
  | rotate hs => exact h.rotate hk hs
  | takeKey pub d key hs => exact h.pushNew hk hs key
  | sendKey k pub d m hs hhead hpub hnew hd' hm =>
    obtain ⟨n, -, hpriv⟩ := h.pair _ hs
    refine h.send ?_
    obtain ⟨id, rfl | rfl⟩ := hm
    all_goals exact ⟨n, pub, _, by rw [← hpriv]; exact hd'⟩
  | sendRoster k | chat k => exact (h.noteSeal k none).send trivial
  | sendFileStart u up => exact (h.noteSeal up.key (some up.captured)).send trivial
  | sendChunk u up i =>
    have h1 := (h.noteSeal up.key (some up.captured)).send (m := .fileChunk up.transfer i
      (sealBytes ((c.noteSeal up.key (some up.captured)).read up.key) (up.file.slice i))) trivial
    exact h1.of_eq rfl rfl (fun s hs => ⟨s, hs, rfl, rfl, rfl⟩) rfl

theorem init (i : Nat) : Attested V { who := i + 1 } := by
  constructor <;> simp

theorem step (h : Attested V c) (hkept : Kept A c) (hA : Channel A) (hk : KeysOk False c)
    (hh : Hellos c) (hstep : c.step a = some c') (hd : ∀ d, a.payload = some d → A d ∧ V d)
    (hj : ∀ token code nick session, a = .join token code nick session → Secret code)
    (hV : ∀ pc, V (pakeFrame .pakeC pc) → V pc) : Attested V c' := by
  by_cases ha : ∃ u, a = .resume u
  · obtain ⟨u, rfl⟩ := ha
    have hinv := (step_effects hstep).invariant
      (I := fun c => KeysOk False c ∧ Hellos c ∧ Attested V c)
      (fun c c' hc he => ⟨hc.1.effect he False.elim, hc.2.1.effect he,
        hc.2.2.effect (A := A) (by simp) hc.1 hc.2.1 he (fun d hd' => (hd d hd').2) hV⟩)
      ⟨hk, hh, h⟩
    exact hinv.2.2
  · have hne (u : Nat) : a ≠ .resume u := fun hu => ha ⟨u, hu⟩
    have hinv := (step_effects hstep).invariant
      (I := fun c => (KeysOk False c ∧ Hellos c) ∧ Kept A c ∧ Attested V c)
      (fun c c' hc he => ⟨⟨hc.1.1.effect he False.elim, hc.1.2.effect he⟩,
        hc.2.1.effect hA hc.1.1 he (fun d hd' => (hd d hd').1) hj hne,
        hc.2.2.effect (fun _ => hc.2.1) hc.1.1 hc.1.2 he (fun d hd' => (hd d hd').2) hV⟩)
      ⟨⟨hk, hh⟩, hkept, h⟩
    exact hinv.2.2

end Attested
end E2EAnon.Net
