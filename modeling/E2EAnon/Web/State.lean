import Mathlib.Logic.Function.Basic
import Mathlib.Tactic.Simps.Basic
import E2EAnon.Web.Crypto
import E2EAnon.Lib.JsMap

/-!
# The state of a browser tab (`web/src/main.ts`)

| here | there |
| --- | --- |
| `Buffer`, `Addr`   | a `Uint8Array` with key material and a reference to one; `wipeKey` zeroes it in place |
| `Session`, `HsRecord` | `Session` (`main.ts:85`), `HsRecord` (`main.ts:77`); the fields that only the display reads are left out |
| `Socket`           | a `WebSocket` made by `connect` (`main.ts:200`), with the hello its `open` listener sends |
| `Upload`           | a running `sendFile` (`main.ts:696`): its local variables and where it waits |
| `Client`           | the tab: its heap, the module's variables, its sockets and the calls that wait |

Ids are compared only for equality; `empty` is the empty string. `outbox` holds the frames handed to
the sockets that nobody has taken yet, the oldest first. The fields under "History" are read by no
handler.
-/

namespace E2EAnon.Web

/-- `""`. -/
def empty : Handle := 0

/-- The id in a field that is present and not empty. -/
def given (h : Option Handle) : Option Handle := h.filter (· ≠ empty)

theorem given_eq_some {h : Option Handle} {k : Handle} :
    given h = some k ↔ h = some k ∧ k ≠ empty := by
  simp [given, Option.filter_eq_some_iff]

abbrev Addr := Nat

structure Buffer where
  bytes : Data := zeros
  wiped : Bool := false
deriving DecidableEq

/-- The role of a client in one handshake (`HsRecord.role`). -/
inductive HsRole
  | owner | joiner
deriving DecidableEq, Repr

structure KeyPair where
  pub  : Data
  priv : Addr
deriving DecidableEq

structure HsRecord where
  hs                : HandshakeSession
  role              : HsRole
  joinerMemberId    : Handle := empty
  ke                : Option Addr := none
  pendingKeyDeliver : Option Data := none
deriving DecidableEq

/-- `pendingKeyDeliver` where it is tested for truth (`main.ts:413`). -/
def HsRecord.parked (r : HsRecord) : Option Data := r.pendingKeyDeliver.filter (· ≠ emptyText)

theorem HsRecord.parked_eq_some {r : HsRecord} {d : Data} :
    r.parked = some d ↔ r.pendingKeyDeliver = some d ∧ d ≠ emptyText := by
  simp [parked, Option.filter_eq_some_iff]

structure Session where
  sock           : Nat
  room           : Handle := empty
  memberId       : Handle := empty
  role           : Role := .member
  ownerId        : Handle := empty
  /-- Newest first. -/
  keys           : List Addr := []
  kp             : KeyPair
  pendingInvites : Lib.JsMap Handle Data := []
  handshakes     : Lib.JsMap Handle HsRecord := []
  memberPubs     : Lib.JsMap Handle Data := []
  knownMembers   : List Handle := []
  firstOwnerPub  : Option Data := none
  lastMembers    : List MemberInfo := []
deriving DecidableEq

/-- The buffers `teardown` wipes. -/
def Session.buffers (s : Session) : List Addr :=
  s.kp.priv :: s.keys ++ s.handshakes.filterMap (·.2.ke)

theorem Session.mem_buffers_ke {s : Session} {hsId : Handle} {r : HsRecord} {ke : Addr}
    (hr : Lib.JsMap.get hsId s.handshakes = some r) (hke : r.ke = some ke) : ke ∈ s.buffers :=
  List.mem_cons_of_mem _ (List.mem_append_right _
    (List.mem_filterMap.mpr ⟨_, Lib.JsMap.mem_of_get hr, hke⟩))

/-- `handshakes.set(hsId, r)`. -/
@[simps] def Session.setHandshake (hsId : Handle) (r : HsRecord) (s : Session) : Session :=
  { s with handshakes := Lib.JsMap.set hsId r s.handshakes }

/-- `handshakes.delete(hsId)`. -/
@[simps] def Session.deleteHandshake (hsId : Handle) (s : Session) : Session :=
  { s with handshakes := Lib.JsMap.delete hsId s.handshakes }

/-- `memberPubs.set(id, pub)`. -/
@[simps] def Session.setPub (id : Handle) (pub : Data) (s : Session) : Session :=
  { s with memberPubs := Lib.JsMap.set id pub s.memberPubs }

/-- Members that have gone. -/
@[simps] def Session.forget (removed : List Handle) (s : Session) : Session :=
  { s with
    knownMembers := s.knownMembers.filter (· ∉ removed)
    memberPubs := s.memberPubs.filter fun e => e.1 ∉ removed }

inductive ReadyState
  | connecting | open | closing | closed
deriving DecidableEq, Repr

structure Socket where
  hello : ClientMsg Data := .unknown
  ready : ReadyState := .connecting
deriving DecidableEq

/-- A file, cut into slices of `CHUNK_SIZE`. -/
structure File where
  name   : Data
  type   : Data
  size   : Nat
  slices : List Data
deriving DecidableEq

/-- `Math.max(1, Math.ceil(buf.length / CHUNK_SIZE))`. -/
def File.total (f : File) : Nat := max 1 f.slices.length

def File.slice (f : File) (i : Nat) : Data := f.slices.getD i (.const .nil)

/-- `JSON.stringify(meta)`; the keys are `name`, `type`, `size` and `chunks`. -/
def File.meta (f : File) : Data :=
  jsonOf [(1, f.name), (2, f.type), (3, .const (.num f.size)), (4, .const (.num f.total))]

structure Upload where
  file     : File
  transfer : String
  key      : Addr
  kid      : Data
  /-- The chunks sent; `none` while the file is being read. -/
  sent     : Option Nat := none
  /-- History: the session it began in, how many keys that session had pushed, and what `key` held. -/
  sock     : Nat
  pushed   : Nat
  captured : Data
deriving DecidableEq

/-- History: a call of `sealBytes` or `encryptMessage` under a room key. -/
structure Sealing where
  bytes    : Data
  wiped    : Bool
  /-- For a file: what the key held when the upload began. -/
  captured : Option Data
deriving DecidableEq

structure Client where
  who              : Nat
  draws            : Nat := 0
  heap             : Addr → Buffer := fun _ => {}
  brk              : Addr := 0
  session          : Option Session := none
  pendingJoin      : Option (Handle × Data) := none
  intentionalClose : Bool := false
  /-- Calls of `connect` that wait for the old socket to close. -/
  connects         : List (ClientMsg Data) := []
  socket           : Nat → Socket := fun _ => {}
  sockets          : Nat := 0
  uploads          : Lib.JsMap Nat Upload := []
  launched         : Nat := 0
  outbox           : List (Nat × ClientMsg Data) := []
  /-- History: the keys each session has pushed, and the sessions torn down. -/
  pushes           : Nat → Nat := fun _ => 0
  torn             : List Nat := []
  seals            : List Sealing := []

/-- `MAX_KEPT_KEYS` (`main.ts:34`). -/
def maxKeptKeys : Nat := 5

namespace Client

/-! ## Buffers and random values -/

def read (c : Client) (a : Addr) : Data := (c.heap a).bytes

def alloc (c : Client) (b : Data) : Client × Addr :=
  ({ c with heap := Function.update c.heap c.brk { bytes := b }, brk := c.brk + 1 }, c.brk)

/-- `wipeKey` on each of `as`. -/
def wipe (c : Client) (as : List Addr) : Client :=
  { c with heap := fun a => if a ∈ as then { bytes := zeros, wiped := true } else c.heap a }

/-- `crypto.getRandomValues`. -/
def draw (c : Client) : Client × Data :=
  ({ c with draws := c.draws + 1 }, .name (Name.mk c.who c.draws))

def generateRoomKey (c : Client) : Client × Addr :=
  let (c, n) := c.draw
  c.alloc n

def generateKeyPair (c : Client) : Client × KeyPair :=
  let pub := .pub (Name.mk c.who c.draws)
  let (c, n) := c.draw
  let (c, priv) := c.alloc n
  (c, { pub, priv })

/-! ## The session, its socket, and history -/

def modify (c : Client) (f : Session → Session) : Client :=
  { c with session := c.session.map f }

/-- `send` (`main.ts:230`). -/
def send (c : Client) (m : ClientMsg Data) : Client :=
  match c.session with
  | some s =>
    if (c.socket s.sock).ready = .open then { c with outbox := c.outbox ++ [(s.sock, m)] } else c
  | none => c

def setReady (c : Client) (sock : Nat) (r : ReadyState) : Client :=
  { c with socket := Function.update c.socket sock { c.socket sock with ready := r } }

/-- `ws.close()`. -/
def closeSocket (c : Client) (sock : Nat) : Client :=
  if (c.socket sock).ready = .closed then c else c.setReady sock .closing

/-- History: a seal under the buffer `a`. -/
def noteSeal (c : Client) (a : Addr) (captured : Option Data) : Client :=
  { c with seals := ⟨c.read a, (c.heap a).wiped, captured⟩ :: c.seals }

/-- `pushKey` (`main.ts:531`). -/
def pushKey (c : Client) (k : Addr) : Client :=
  match c.session with
  | none => c
  | some s =>
    let keys := k :: s.keys
    { c.wipe (keys.drop maxKeptKeys) with
      session := some { s with keys := keys.take maxKeptKeys }
      pushes := Function.update c.pushes s.sock (c.pushes s.sock + 1) }

/-- `teardown` (`main.ts:583`). -/
def teardown (c : Client) : Client :=
  match c.session with
  | none => { c with pendingJoin := none }
  | some s =>
    { (c.wipe s.buffers).closeSocket s.sock with
      session := none
      pendingJoin := none
      torn := s.sock :: c.torn }

/-! ## What they leave alone -/

variable (c : Client)

@[simp] theorem noteSeal_session (a : Addr) (captured : Option Data) :
    (c.noteSeal a captured).session = c.session := rfl

@[simp] theorem noteSeal_uploads (a : Addr) (captured : Option Data) :
    (c.noteSeal a captured).uploads = c.uploads := rfl

@[simp] theorem modify_session (f : Session → Session) :
    (c.modify f).session = c.session.map f := rfl

@[simp] theorem send_session (m : ClientMsg Data) : (c.send m).session = c.session := by
  unfold send
  split
  · split <;> simp [*]
  · simp [*]

@[simp] theorem send_uploads (m : ClientMsg Data) : (c.send m).uploads = c.uploads := by
  unfold send
  split
  · split <;> rfl
  · rfl

@[simp] theorem send_heap (m : ClientMsg Data) : (c.send m).heap = c.heap := by
  unfold send
  split
  · split <;> rfl
  · rfl

@[simp] theorem send_who (m : ClientMsg Data) : (c.send m).who = c.who := by
  unfold send
  split
  · split <;> rfl
  · rfl

variable {c}

@[simp] theorem teardown_session (c : Client) : c.teardown.session = none := by
  unfold teardown
  split
  · assumption
  · rfl

theorem pushKey_session {s : Session} (h : c.session = some s) (k : Addr) :
    (c.pushKey k).session = some { s with keys := (k :: s.keys).take maxKeptKeys } := by
  simp [pushKey, h]

end Client
end E2EAnon.Web
