import E2EAnon.Relay.Frames
import E2EAnon.Web.Keys

/-!
# What a tab keeps to itself

`secrets` are the clients' random values and the public halves of their key pairs, which no frame
carries in the clear. `Kept A c`: the buffers and codes of a tab are secret, and what it has sent is
as the source makes it (`Formed`) and `Outgoing`: fit to arrive somewhere (`A`), or a message under a
secret key. `A` is what the relay may bring. All the tab relies on (`Channel A`) is that under the
pair key of two clients there is only ever a room key.
-/

namespace E2EAnon.Net

open Web
open Relay (clientPayloads payloads)
open Lib (JsMap)

/-- The clients' random values, and the public halves of their key pairs. -/
def secrets : Lib.Secrets Name where
  secret n := n.who ≠ 0
  hidden n := n.who ≠ 0
  secret_of_hidden _ := id

instance secretDecidable : DecidablePred secrets.secret := fun n => inferInstanceAs (Decidable (n.who ≠ 0))

instance hiddenDecidable : DecidablePred secrets.hidden := fun n => inferInstanceAs (Decidable (n.who ≠ 0))

abbrev Secret (d : Data) : Prop := Lib.Term.Locked secrets d

/-- Key material: secret, and none of the keys derived for an exchange. -/
structure Material (d : Data) : Prop where
  secret : Secret d
  keyx : ∀ a, d ≠ .kdf .keyx a
  rekey : ∀ a, d ≠ .kdf .rekey a

/-- Under a pair key there is key material. -/
def Shape (k m : Data) : Prop := ∀ a, k = .kdf .rekey a → ∃ d, Material d ∧ m = keyToString d

/-- What may arrive at a tab. -/
structure Channel (A : Data → Prop) : Prop where
  shape : ∀ k m, A (.enc k m) → Secret k → Shape k m
  tag : ∀ t d, A (.tag t d)
  pake : ∀ t d, A d → A (pakeFrame t d)

/-- Fit to arrive, or a message under a secret key. -/
def Outgoing (A : Data → Prop) (d : Data) : Prop := A d ∨ ∃ k m, d = .enc k m ∧ Secret k ∧ Shape k m

/-- A buffer's content. -/
def Content (d : Data) : Prop := d = zeros ∨ Material d

/-- The payloads of a frame are made as the source makes them. -/
def Formed : ClientMsg Data → Prop
  | .pake _ d => ∃ t x, d = pakeFrame t x
  | .memberKey _ d => ∃ ke v, Material ke ∧ d = sealUnderKe ke v
  | .keyDeliver _ d | .rekey _ d => ∃ a m, d = .enc (.kdf .rekey a) m
  | .msg d | .fileChunk _ _ d => ∃ k m, Content k ∧ d = sealBytes k m
  | .roster d => ∃ k s, Content k ∧ d = encryptMessage k (jsonOf (rosterOf s))
  | .fileStart _ kid d => (∃ k, kid = keyId k) ∧ ∃ k f, Content k ∧ d = encryptMessage k (File.meta f)
  | _ => True

/-- A handshake whose code is secret. -/
structure HsKept (A : Data → Prop) (r : HsRecord) : Prop where
  code : Secret r.hs.state.code
  result : ∀ res, r.hs.result = some res → Material res.ke ∧ A res.confirm
  parked : ∀ d, r.pendingKeyDeliver = some d → A d

structure Kept (A : Data → Prop) (c : Client) : Prop where
  who : c.who ≠ 0
  heap : ∀ x < c.brk, (c.heap x).wiped = false → Material (c.read x)
  wiped : ∀ x, (c.heap x).wiped = true → c.read x = zeros
  content : ∀ x, Content (c.read x)
  joining : ∀ token code, c.pendingJoin = some (token, code) → Secret code
  invites : ∀ s token code, c.session = some s → JsMap.get token s.pendingInvites = some code →
    Secret code
  handshakes : ∀ s hsId r, c.session = some s → JsMap.get hsId s.handshakes = some r → HsKept A r
  connects : ∀ h ∈ c.connects, clientPayloads h = []
  hello : ∀ sock, clientPayloads (c.socket sock).hello = []
  kid : ∀ u up, JsMap.get u c.uploads = some up → ∃ k, up.kid = keyId k
  outbox : ∀ m ∈ c.outbox, Formed m.2 ∧ ∀ d ∈ clientPayloads m.2, Outgoing A d

variable {A B : Data → Prop} {a : Act} {c₀ c c' : Client} {s : Session} {r : HsRecord}

/-! ## Building blocks -/

theorem Outgoing.mono (h : ∀ d, A d → B d) {d : Data} (hd : Outgoing A d) : Outgoing B d :=
  hd.imp_left (h d)

theorem HsKept.mono (h : ∀ d, A d → B d) (hr : HsKept A r) : HsKept B r where
  code := hr.code
  result res hres := (hr.result res hres).imp_right (h _)
  parked d hd := h d (hr.parked d hd)

theorem Kept.mono (h : ∀ d, A d → B d) (hc : Kept A c) : Kept B c :=
  { hc with
    handshakes := fun s hsId r hs hr => (hc.handshakes s hsId r hs hr).mono h
    outbox := fun m hm => (hc.outbox m hm).imp_right fun hd d hdm => (hd d hdm).mono h }

theorem clientPayloads_of_plain {m : ClientMsg Data} (h : plain m) : clientPayloads m = [] := by
  cases m <;> first | rfl | simp [plain] at h

theorem formed_of_payloads {m : ClientMsg Data} (h : clientPayloads m = []) : Formed m := by
  cases m <;> trivial

theorem material_name {n : Name} (h : n.who ≠ 0) : Material (.name n) := ⟨h, nofun, nofun⟩

theorem Material.outgoing {k : Data} (hk : Material k) (m : Data) : Outgoing A (.enc k m) :=
  .inr ⟨k, m, rfl, hk.secret, fun a ha => absurd ha (hk.rekey a)⟩

/-- A public key sealed under `Ke`. -/
theorem outgoing_memberKey {ke : Data} (hke : Material ke) (v : Data) :
    Outgoing A (sealUnderKe ke v) :=
  .inr ⟨.kdf .keyx ke, _, rfl, hke.secret, fun _ => nofun⟩

/-- Two key pairs share a secret if one of them is a client's. -/
theorem pairKey_locked {priv pub k : Data} (hp : Secret priv) (h : pairKey priv pub = some k) :
    Secret k ∧ ∃ a, k = .kdf .rekey a := by
  obtain ⟨d, hd, rfl⟩ := Option.map_eq_some_iff.mp h
  refine ⟨?_, d, rfl⟩
  unfold getSharedSecret at hd
  split at hd
  · rename_i m n
    cases hd
    show Secret (Lib.Term.agree m n)
    exact Lib.Term.locked_agree.mpr ⟨.inl hp, .inr hp⟩
  · cases hd
    exact .inl hp
  · simp at hd

/-- What a client seals under a pair key. -/
theorem sealRoomKey_spec {priv pub key d : Data} (hp : Secret priv) (hkey : Material key)
    (h : sealRoomKey priv pub key = some d) : (∃ a m, d = .enc (.kdf .rekey a) m) ∧ Outgoing A d := by
  obtain ⟨k, hk, rfl⟩ := Option.map_eq_some_iff.mp h
  obtain ⟨hlock, a, rfl⟩ := pairKey_locked hp hk
  exact ⟨⟨a, _, rfl⟩, .inr ⟨_, _, rfl, hlock, fun _ _ => ⟨key, hkey, rfl⟩⟩⟩

/-- What is opened under a pair key is key material. -/
theorem openRoomKey_material (hA : Channel A) {priv pub key d : Data} (hp : Secret priv) (hd : A d)
    (h : openRoomKey priv pub d = some key) : Material key := by
  obtain ⟨-, k, hk, rfl⟩ := openRoomKey_eq_some.mp h
  obtain ⟨hlock, a, ha⟩ := pairKey_locked hp hk
  obtain ⟨key', hkey', he⟩ := hA.shape k _ hd hlock a ha
  injection he with _ he
  exact he ▸ hkey'

theorem kept_init (i : Nat) : Kept A { who := i + 1 } := by
  constructor <;> simp [clientPayloads, Client.read, Content]

/-! ## Handshakes -/

theorem keOf_material {code : Data} (h : Secret code) (hsId : Handle) (pA pB : Data) :
    Material (keOf code hsId pA pB) :=
  ⟨.inl h, nofun, nofun⟩

/-- `onData` keeps the code and the transcript, and computes a result at most once. -/
theorem onData_new (h : HandshakeSession) (d : Data) : (h.onData d).1.state = h.state ∧
    ∀ res, (h.onData d).1.result = some res → h.result = some res ∨ ∃ p, finish h.state p = some res := by
  unfold HandshakeSession.onData HandshakeSession.handlePoint HandshakeSession.handleConfirm
    HandshakeSession.verify HandshakeSession.fail
  grind

theorem HsKept.onData (hA : Channel A) (h : HsKept A r) (d : Data) : HsKept A { r with hs := (r.hs.onData d).1 } := by
  obtain ⟨hstate, hres⟩ := onData_new r.hs d
  refine ⟨?_, fun res hx => ?_, h.parked⟩
  · rw [hstate]
    exact h.code
  · obtain hx | ⟨p, hp⟩ := hres res hx
    · exact h.result res hx
    · unfold finish at hp
      split at hp
      · cases hp
        refine ⟨?_, hA.tag _ _⟩
        cases r.hs.state.role <;> exact keOf_material h.code _ _ _
      · simp at hp

/-! ## What the operations of the tab keep -/

namespace Kept

/-- A buffer that a session holds has key material in it. -/
theorem buffer {q : Prop} (h : Kept A c) (hk : KeysOk q c) (hs : c.session = some s) {x : Addr}
    (hx : x ∈ s.buffers) : Material (c.read x) :=
  h.heap x (hk.below s hs x hx) (hk.live s hs x hx)

/-- Nothing secret has moved. -/
theorem still (h : Kept A c) (hwho : c'.who = c.who) (hheap : c'.heap = c.heap)
    (hbrk : c'.brk = c.brk) (hjoin : ∀ x, c'.pendingJoin = some x → c.pendingJoin = some x)
    (hses : ∀ s', c'.session = some s' → ∃ s, c.session = some s ∧
      s'.pendingInvites = s.pendingInvites ∧ s'.handshakes = s.handshakes)
    (hcon : c'.connects = c.connects)
    (hhello : ∀ sock, (c'.socket sock).hello = (c.socket sock).hello)
    (hup : c'.uploads = c.uploads) (hout : c'.outbox = c.outbox) : Kept A c' := by
  constructor
  case who => exact hwho ▸ h.who
  case heap =>
    simp only [Client.read, hheap, hbrk]
    exact h.heap
  case wiped =>
    simp only [Client.read, hheap]
    exact h.wiped
  case content =>
    simp only [Client.read, hheap]
    exact h.content
  case joining => exact fun token code hc => h.joining token code (hjoin _ hc)
  case invites =>
    intro s' token code hs' hc
    obtain ⟨s, hs, he, -⟩ := hses s' hs'
    exact h.invites s token code hs (he ▸ hc)
  case handshakes =>
    intro s' hsId r hs' hr
    obtain ⟨s, hs, -, he⟩ := hses s' hs'
    exact h.handshakes s hsId r hs (he ▸ hr)
  case connects => exact hcon ▸ h.connects
  case hello => exact fun sock => hhello sock ▸ h.hello sock
  case kid => exact hup ▸ h.kid
  case outbox => exact hout ▸ h.outbox

theorem idle (h : Kept A c) (he : c'.core = c.core) : Kept A c' := by
  simp only [Client.core, Client.mk.injEq] at he
  obtain ⟨h1, -, h2, h3, h4, h5, -, h6, h7, -, h8, -, h9, -, -, -⟩ := he
  refine h.still h1 h2 h3 (fun x hx => h5 ▸ hx) (fun s' hs' => ?_) h6
    (fun sock => (Socket.mk.inj (congrFun h7 sock)).1) h8 h9
  rw [hs', Option.map_some] at h4
  obtain ⟨s, hs, hss⟩ := Option.map_eq_some_iff.mp h4.symm
  simp only [Session.core, Session.mk.injEq] at hss
  obtain ⟨-, -, -, -, -, -, -, hinv, hhs, -⟩ := hss
  exact ⟨s, hs, hinv.symm, hhs.symm⟩

theorem modify (h : Kept A c) (f : Session → Session) (hf : ∀ s, c.session = some s →
    (∀ token code, JsMap.get token (f s).pendingInvites = some code → Secret code) ∧
      ∀ hsId r, JsMap.get hsId (f s).handshakes = some r → HsKept A r) : Kept A (c.modify f) :=
  { h with
    invites := fun s' token code hs' hc => by
      obtain ⟨s, hs, rfl⟩ := Option.map_eq_some_iff.mp hs'
      exact (hf s hs).1 token code hc
    handshakes := fun s' hsId r hs' hr => by
      obtain ⟨s, hs, rfl⟩ := Option.map_eq_some_iff.mp hs'
      exact (hf s hs).2 hsId r hr }

/-- The invites and the handshakes stay. -/
theorem modifySame (h : Kept A c) (f : Session → Session)
    (hf : ∀ s, (f s).pendingInvites = s.pendingInvites ∧ (f s).handshakes = s.handshakes) :
    Kept A (c.modify f) :=
  h.modify f fun s hs => by
    rw [(hf s).1, (hf s).2]
    exact ⟨fun token code => h.invites s token code hs, fun hsId r => h.handshakes s hsId r hs⟩

theorem setHandshake (h : Kept A c) (hsId : Handle) (hr : HsKept A r) :
    Kept A (c.modify (·.setHandshake hsId r)) := by
  refine h.modify _ fun s hs => ⟨fun token code => h.invites s token code hs, fun hsId' r' hr' => ?_⟩
  simp only [Session.setHandshake_handshakes, JsMap.get_set] at hr'
  split at hr'
  · exact Option.some.inj hr' ▸ hr
  · exact h.handshakes s hsId' r' hs hr'

theorem deleteHandshake (h : Kept A c) (hsId : Handle) :
    Kept A (c.modify (·.deleteHandshake hsId)) := by
  refine h.modify _ fun s hs => ⟨fun token code => h.invites s token code hs, fun hsId' r' hr' => ?_⟩
  simp only [Session.deleteHandshake_handshakes, JsMap.get_delete] at hr'
  split at hr'
  · simp at hr'
  · exact h.handshakes s hsId' r' hs hr'

theorem send (h : Kept A c) (m : ClientMsg Data) (hf : Formed m)
    (hm : ∀ d ∈ clientPayloads m, Outgoing A d) : Kept A (c.send m) := by
  unfold Client.send
  split
  · split
    · refine { h with outbox := fun m' hm' => ?_ }
      obtain hm' | hm' := List.mem_append.mp hm'
      · exact h.outbox m' hm'
      · obtain rfl := List.mem_singleton.mp hm'
        exact ⟨hf, hm⟩
    · exact h
  · exact h

theorem sendPlain (h : Kept A c) {m : ClientMsg Data} (hm : plain m) : Kept A (c.send m) :=
  h.send m (formed_of_payloads (clientPayloads_of_plain hm)) (by simp [clientPayloads_of_plain hm])

/-- A frame with one payload. -/
theorem sendOne (h : Kept A c) {m : ClientMsg Data} {d : Data} (hf : Formed m)
    (hm : clientPayloads m = [d]) (hd : Outgoing A d) : Kept A (c.send m) :=
  h.send m hf (by simpa [hm] using hd)

theorem draw (h : Kept A c) : Kept A c.draw.1 :=
  h.still rfl rfl rfl (fun _ => id) (fun s hs => ⟨s, hs, rfl, rfl⟩) rfl (fun _ => rfl) rfl rfl

theorem alloc (h : Kept A c) {b : Data} (hb : Material b) : Kept A (c.alloc b).1 :=
  { h with
    heap := fun x hx hw => by
      simp only [Client.alloc, Client.read, Function.update_apply] at hx hw ⊢
      split
      · exact hb
      · rename_i hne
        rw [if_neg hne] at hw
        exact h.heap x (Nat.lt_of_le_of_ne (Nat.le_of_lt_succ hx) hne) hw
    wiped := fun x hw => by
      simp only [Client.alloc, Client.read, Function.update_apply] at hw ⊢
      split
      · rename_i he
        simp [he] at hw
      · rename_i hne
        rw [if_neg hne] at hw
        exact h.wiped x hw
    content := fun x => by
      simp only [Client.alloc, Client.read, Function.update_apply]
      split
      · exact .inr hb
      · exact h.content x }

theorem wipe (h : Kept A c) (as : List Addr) : Kept A (c.wipe as) :=
  { h with
    heap := fun x hx hw => by
      simp only [Client.wipe, Client.read] at hx hw ⊢
      split
      · rename_i hm
        simp [hm] at hw
      · rename_i hm
        rw [if_neg hm] at hw
        exact h.heap x hx hw
    wiped := fun x hw => by
      simp only [Client.wipe, Client.read] at hw ⊢
      split
      · rfl
      · rename_i hm
        rw [if_neg hm] at hw
        exact h.wiped x hw
    content := fun x => by
      simp only [Client.wipe, Client.read]
      split
      · exact .inl rfl
      · exact h.content x }

theorem pushKey (h : Kept A c) (k : Addr) : Kept A (c.pushKey k) := by
  unfold Client.pushKey
  split
  · exact h
  · rename_i s hs
    refine (h.wipe ((k :: s.keys).drop maxKeptKeys)).still rfl rfl rfl (fun _ => id)
      (fun s' hs' => ⟨s, hs, ?_⟩) rfl (fun _ => rfl) rfl rfl
    cases hs'
    exact ⟨rfl, rfl⟩

theorem closeSocket (h : Kept A c) (sock : Nat) : Kept A (c.closeSocket sock) := by
  refine h.idle ?_
  unfold Client.closeSocket
  split
  · rfl
  · exact Client.core_setReady sock .closing

theorem teardown (h : Kept A c) : Kept A c.teardown := by
  unfold Client.teardown
  split
  · exact { h with joining := fun _ _ hj => nomatch hj }
  · rename_i s hs
    refine ((h.wipe s.buffers).closeSocket s.sock).still rfl rfl rfl ?_ ?_ rfl (fun _ => rfl) rfl rfl
    all_goals exact fun _ hx => nomatch hx

theorem noteSeal (h : Kept A c) (k : Addr) (cap : Option Data) : Kept A (c.noteSeal k cap) :=
  h.still rfl rfl rfl (fun _ => id) (fun s hs => ⟨s, hs, rfl, rfl⟩) rfl (fun _ => rfl) rfl rfl

theorem drawn (h : Kept A c) : Material c.draw.2 := material_name h.who

theorem rotate (h : Kept A c) : Kept A (c.generateRoomKey.1.pushKey c.generateRoomKey.2) :=
  (h.draw.alloc h.drawn).pushKey _

theorem openSession (h : Kept A c) {i : Nat} {hello : ClientMsg Data}
    (hi : c.connects[i]? = some hello) :
    Kept A ({ c with connects := c.connects.eraseIdx i }.openSession hello) := by
  have hhello := h.connects hello (List.mem_of_getElem? hi)
  have h1 : Kept A (c.draw.1.alloc c.draw.2).1 := h.draw.alloc h.drawn
  refine { h1 with invites := ?_, handshakes := ?_, connects := ?_, hello := ?_ }
  · intro s token code hs hc
    cases hs
    simp at hc
  · intro s hsId r hs hr
    cases hs
    simp at hr
  · exact fun m hm => h.connects m (List.mem_of_mem_eraseIdx hm)
  · intro sock
    simp only [Client.openSession, Function.update_apply]
    split
    · exact hhello
    · exact h.hello sock

theorem beginHandshake (h : Kept A c) (hA : Channel A) (pr : PakeRole) (role : HsRole) {code : Data}
    (hcode : Secret code) (hsId joinerId : Handle) :
    Kept A (c.beginHandshake pr role code hsId joinerId) := by
  have hpoint (x : Data) : A (pakeFrame .pakeM (HandshakeSession.new pr code hsId x).state.message) :=
    hA.pake _ _ (hA.tag _ _)
  refine setHandshake (h.draw.sendOne ?_ rfl (.inl (hpoint _))) hsId ⟨hcode, nofun, nofun⟩
  exact ⟨_, _, rfl⟩

theorem beginUpload (h : Kept A c) (k : Addr) (transfer : String) (file : File) :
    Kept A (c.beginUpload s k transfer file) :=
  { h with
    kid := fun u up hu => by
      simp only [Client.beginUpload, JsMap.get_set] at hu
      split at hu
      · cases hu
        exact ⟨_, rfl⟩
      · exact h.kid u up hu }

theorem advance (h : Kept A c) (m : JsMap Nat Upload) (hm : ∀ u up, JsMap.get u m = some up →
    ∃ u₀ up₀, JsMap.get u₀ c.uploads = some up₀ ∧ up.kid = up₀.kid) :
    Kept A { c with uploads := m } :=
  { h with
    kid := fun u up hu => by
      obtain ⟨u₀, up₀, hu₀, he⟩ := hm u up hu
      exact he ▸ h.kid u₀ up₀ hu₀ }

theorem dropUpload (h : Kept A c) (u : Nat) : Kept A (c.dropUpload u) := by
  refine h.advance _ fun u' up hu => ?_
  simp only [JsMap.get_delete] at hu
  split at hu
  · simp at hu
  · exact ⟨u', up, hu, rfl⟩

/-- The events apart from those of an upload. -/
theorem effect (h : Kept A c) (hA : Channel A) (hk : KeysOk False c) (he : Effect a c₀ c c')
    (hd : ∀ d, a.payload = some d → A d)
    (hj : ∀ token code nick session, a = .join token code nick session → Secret code)
    (hr : ∀ u, a ≠ .resume u) : Kept A c' := by
  cases he with
  | idle he => exact h.idle he
  | sendPlain m hm => exact h.sendPlain hm
  | opened sock =>
    refine { h with outbox := fun m hm => ?_ }
    obtain hm | hm := List.mem_append.mp hm
    · exact h.outbox m hm
    · obtain rfl := List.mem_singleton.mp hm
      simp [h.hello sock, formed_of_payloads]
  | beginConnect hello hm =>
    refine { h with connects := fun m hm' => ?_ }
    obtain hm' | hm' := List.mem_append.mp hm'
    · exact h.connects m hm'
    · obtain rfl := List.mem_singleton.mp hm'
      exact clientPayloads_of_plain hm
  | dropJoin => exact { h with joining := fun _ _ hj' => nomatch hj' }
  | submitInvite token code nick session ha =>
    refine { h with joining := fun token' code' hj' => ?_ }
    cases hj'
    exact hj token code nick session ha
  | openSession i hello hi => exact h.openSession hi
  | firstKey hs hkeys => exact Client.firstKey_eq hs hkeys ▸ h.rotate
  | teardown => exact h.teardown
  | invite token hs =>
    refine h.draw.modify _ fun s hs => ⟨fun token' code hc => ?_, fun hsId r => h.handshakes s hsId r hs⟩
    simp only [JsMap.get_set] at hc
    split at hc
    · cases hc
      exact h.drawn.1
    · exact h.invites s token' code hs hc
  | @offer s token hsId memberId code hs hcode ha =>
    refine beginHandshake (h.modify (fun s => { s with
      pendingInvites := JsMap.delete token s.pendingInvites }) fun s' hs' =>
        ⟨fun token' code' hc => ?_, fun hsId r => h.handshakes s' hsId r hs'⟩)
      hA _ _ (h.invites s token code hs hcode) _ _
    simp only [JsMap.get_delete] at hc
    split at hc
    · simp at hc
    · exact h.invites s' token' code' hs' hc
  | accept token hsId code hs hcode ha =>
    have h1 : Kept A { c with pendingJoin := none } := { h with joining := fun _ _ hj' => nomatch hj' }
    exact h1.beginHandshake hA _ _ (h.joining token code hcode) _ _
  | pake hsId r d hs hrec hd' =>
    exact h.setHandshake hsId ((h.handshakes _ hsId r hs hrec).onData hA d)
  | sendConfirm hsId r res hs hrec hres =>
    exact h.sendOne ⟨_, _, rfl⟩ rfl
      (.inl (hA.pake _ _ ((h.handshakes _ hsId r hs hrec).result res hres).2))
  | confirmed hsId r res hs hrec hres =>
    have hr' := h.handshakes _ hsId r hs hrec
    exact (h.alloc (hr'.result res hres).1).setHandshake hsId { hr' with }
  | sendMemberKey hsId r res hs hrec hres =>
    have hke := ((h.handshakes _ hsId r hs hrec).result res hres).1
    exact h.sendOne ⟨_, _, hke, rfl⟩ rfl (outgoing_memberKey hke _)
  | endHandshake hsId => exact h.deleteHandshake hsId
  | park hsId r d hs hrec hd' =>
    refine h.setHandshake hsId { h.handshakes _ hsId r hs hrec with parked := fun d' hd'' => ?_ }
    cases hd''
    exact hd d hd'
  | wipeKe hsId r hs hrec => exact (h.wipe r.ke.toList).deleteHandshake hsId
  | learnJoiner hsId r ke d pub hs hrec hke hd' hpub ho id => exact h.modifySame _ fun _ => ⟨rfl, rfl⟩
  | learnOwner hsId r ke d pub hs hrec hke hd' hpub ho => exact h.modifySame _ fun _ => ⟨rfl, rfl⟩
  | seedOwner id pub hs hpub => exact h.modifySame _ fun _ => ⟨rfl, rfl⟩
  | mergeRoster k d json es hs hmem hd' ht hjson hes => exact h.modifySame _ fun _ => ⟨rfl, rfl⟩
  | forget ids => exact h.modifySame _ fun _ => ⟨rfl, rfl⟩
  | rotate hs => exact h.rotate
  | @takeKey s pub d key hs hpub hd' hkey =>
    have hp := h.buffer hk hs (x := s.kp.priv) (by simp [Session.buffers])
    have hA' : A d := by
      obtain hd' | ⟨hsId, r, hrec, hd'⟩ := hd'
      · exact hd d hd'
      · exact (h.handshakes s hsId r hs hrec).parked d hd'
    exact (h.alloc (openRoomKey_material hA hp.secret hA' hkey)).pushKey _
  | @sendKey s k pub d m hs hhead hpub hnew hd' hm =>
    have hp := h.buffer hk hs (x := s.kp.priv) (by simp [Session.buffers])
    have hkey := h.buffer hk hs (x := k) (by simp [Session.buffers, List.mem_of_head? hhead])
    obtain ⟨hform, hout⟩ := sealRoomKey_spec (A := A) hp.secret hkey hd'
    obtain ⟨id, rfl | rfl⟩ := hm
    all_goals exact h.sendOne hform rfl hout
  | sendRoster k hs hhead =>
    have hkey := h.buffer hk hs (x := k) (by simp [Session.buffers, List.mem_of_head? hhead])
    exact (h.noteSeal k none).sendOne ⟨_, _, .inr hkey, rfl⟩ rfl (hkey.outgoing _)
  | chat k body file hs hhead ha =>
    have hkey := h.buffer hk hs (x := k) (by simp [Session.buffers, List.mem_of_head? hhead])
    exact (h.noteSeal k none).sendOne ⟨_, _, .inr hkey, rfl⟩ rfl (hkey.outgoing _)
  | beginUpload k transfer body file hs hhead ha => exact h.beginUpload k transfer file
  | sendFileStart u up ha hu => exact absurd ha (hr u)
  | sendChunk u up i ha hu => exact absurd ha (hr u)
  | endUpload u => exact h.dropUpload u

/-! ## Uploads -/

/-- An upload seals under key material until its buffer is wiped, and from then on under zeros. -/
theorem sealed (h : Kept A c) (hk : KeysOk False c) {u : Nat} {up : Upload}
    (hu : JsMap.get u c.uploads = some up) {m : Data} (hm : ¬ up.Intact c → A (.enc zeros m)) :
    Outgoing A (.enc (c.read up.key) m) := by
  by_cases hin : up.Intact c
  · have hlive : (c.heap up.key).wiped = false := by rw [hk.up_intact u up hu hin]
    exact (h.heap up.key (hk.up_below u up hu).1 hlive).outgoing m
  · rw [h.wiped up.key (hk.up_wiped u up hu hin)]
    exact .inl (hm hin)

theorem sendChunk (h : Kept A c) (hk : KeysOk False c) {u : Nat} {up : Upload} (i : Nat)
    (hu : JsMap.get u c.uploads = some up)
    (hm : ¬ up.Intact c → A (.enc zeros (up.file.slice i))) : Kept A (c.sendChunk u up i) := by
  have hframe : Formed (.fileChunk up.transfer i (sealBytes (c.read up.key) (up.file.slice i))) :=
    ⟨_, _, h.content _, rfl⟩
  refine ((h.noteSeal up.key (some up.captured)).sendOne hframe rfl (h.sealed hk hu hm)).advance _
    fun u' up' hu' => ?_
  simp only [JsMap.get_set] at hu'
  split at hu'
  · cases hu'
    exact ⟨u, up, by simpa using hu, rfl⟩
  · exact ⟨u', up', hu', rfl⟩

theorem resume (h : Kept A c) (hA : Channel A) (hk : KeysOk False c) {u : Nat} {up : Upload}
    (hu : JsMap.get u c.uploads = some up)
    (hm : up.Seals c → ¬ up.Intact c → ∀ d ∈ up.pieces, A (.enc zeros d)) :
    Kept A (c.resume u up) := by
  unfold Client.resume
  split
  · rename_i hsent
    have hseals : up.Seals c := by simp [Upload.Seals, hsent]
    have hpieces (hin : ¬ up.Intact c) := hm hseals hin
    simp only [Upload.pieces, hsent, List.forall_mem_cons] at hpieces
    have hn := Narrow.send (c := c.noteSeal up.key (some up.captured))
      (.fileStart up.transfer up.kid (encryptMessage (c.read up.key) up.file.meta))
    have h1 := h.noteSeal up.key (some up.captured)
    have hk1 := hk.noteSeal up.key (some up.captured) False.elim
    obtain ⟨k, hkid⟩ := h.kid u up hu
    refine sendChunk (h1.send _ ?_ ?_) (hk1.narrow hn) 0 (by simpa using hu) fun hin => ?_
    · exact ⟨⟨k, hkid⟩, _, _, h.content _, rfl⟩
    · refine List.forall_mem_cons.mpr ⟨.inl (hkid ▸ hA.tag _ _), ?_⟩
      exact List.forall_mem_singleton.mpr (h.sealed hk hu fun hin => (hpieces hin).1)
    · rw [Upload.Intact, hn.torn, hn.pushes] at hin
      exact (hpieces hin).2.1
  · rename_i i hsent
    split
    · exact h.dropUpload u
    · rename_i hsession
      split
      · rename_i hi
        refine h.sendChunk hk i hu fun hin => hm ?_ hin _ (by simp [Upload.pieces, hsent])
        simpa [Upload.Seals, hsent, hi, Option.isSome_iff_ne_none] using hsession
      · exact (h.sendPlain rfl).dropUpload u

/-! ## Every event -/

theorem step (h : Kept A c) (hA : Channel A) (hk : KeysOk False c) (hstep : c.step a = some c')
    (hd : ∀ d, a.payload = some d → A d)
    (hj : ∀ token code nick session, a = .join token code nick session → Secret code)
    (hr : ∀ u up, a = .resume u → JsMap.get u c.uploads = some up → up.Seals c → ¬ up.Intact c →
      ∀ d ∈ up.pieces, A (.enc zeros d)) : Kept A c' := by
  by_cases ha : ∃ u, a = .resume u
  · obtain ⟨u, rfl⟩ := ha
    obtain ⟨up, hu, rfl⟩ := Option.map_eq_some_iff.mp hstep
    exact h.resume hA hk hu (hr u up rfl hu)
  · have hne (u : Nat) : a ≠ .resume u := fun hu => ha ⟨u, hu⟩
    have hinv := (step_effects hstep).invariant (I := fun c => KeysOk False c ∧ Kept A c)
      (fun c c' hc he => ⟨hc.1.effect he False.elim, hc.2.effect hA hc.1 he hd hj hne⟩) ⟨hk, h⟩
    exact hinv.2

end Kept
end E2EAnon.Net
