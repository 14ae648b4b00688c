import Mathlib.Data.Prod.Lex
import E2EAnon.Lib.JsMap
import E2EAnon.Lib.Symbolic
import E2EAnon.Wire

/-!
# The client's cryptography (`web/src/crypto.ts`, `handshake.ts`, `spake2.ts`)

| here | there |
| --- | --- |
| `Data`             | the strings and byte strings the client seals, opens and sends |
| `sealBytes`, `openBytes` | XChaCha20-Poly1305 (`crypto.ts:38`, `:51`), perfect; nonces left out |
| `sealUnderKe`, `sealRoomKey` | `crypto.ts:103`, `:118`; `none` where `x25519` throws |
| `arrayIndex`, `protoKey` | the strings that are array indices, and `__proto__` |
| `jsonOf`, `jsonEntries` | `JSON.stringify` of an object with ids for keys, `Object.entries(JSON.parse(..))` |
| `start`, `finish`  | `spake2.ts`, idealised: `Ke` is derived from the code, the handshake id and both messages, so only a holder of the code can compute it |
| `HandshakeSession` | `handshake.ts:18` |

`openBytes`, `openRoomKey` and the like return `none` where the source throws. Text that no decoder
accepts is a constant or a name: a name if nobody else knows the text. Values that are base64url
text are `bytesToB64url` of what they decode to.
-/

namespace E2EAnon.Web

/-- A random value: who drew it and which of their draws it is. Clients number from 1; 0 is
everybody else. -/
abbrev Name := ℕ ×ₗ ℕ

def Name.mk (who idx : Nat) : Name := toLex (who, idx)

def Name.who (n : Name) : Nat := (ofLex n).1

def Name.idx (n : Name) : Nat := (ofLex n).2

@[simp] theorem Name.who_mk (who idx : Nat) : (Name.mk who idx).who = who := rfl

@[simp] theorem Name.idx_mk (who idx : Nat) : (Name.mk who idx).idx = idx := rfl

inductive PakeRole
  | A | B
deriving DecidableEq, Repr

def PakeRole.other : PakeRole → PakeRole
  | .A => .B
  | .B => .A

/-- Public constants: the HKDF labels, the tags that tell encodings apart, and public text. -/
inductive Const
  | zeros
  | nil
  | num (n : Nat)
  | id (h : Handle)
  | text (n : Nat)
  | b64
  | json
  | arr
  | pakeM
  | pakeC
  | role (r : PakeRole)
  | keyx
  | rekey
  | keyid
  | point
  | ke
  | confirm (r : PakeRole)
deriving DecidableEq, Repr

abbrev Data := Lib.Term Name Const

/-! ## `crypto.ts` -/

/-- 32 zero bytes: what `wipeKey` leaves. -/
def zeros : Data := .const .zeros

/-- The empty string. -/
def emptyText : Data := .const .nil

def sealBytes (key pt : Data) : Data := .enc key pt

def openBytes (key : Data) : Data → Option Data
  | .enc k m => if k = key then some m else none
  | _ => none

def encryptMessage (key plaintext : Data) : Data := sealBytes key plaintext

def decryptMessage (key envelope : Data) : Option Data := openBytes key envelope

theorem openBytes_eq_some {key env m : Data} : openBytes key env = some m ↔ env = .enc key m := by
  constructor
  · intro h
    cases env <;> simp [openBytes] at h
    rw [h.1, h.2]
  · rintro rfl
    simp [openBytes]

def keyId (key : Data) : Data := .tag .keyid key

def bytesToB64url (b : Data) : Data := .pair (.const .b64) b

def b64urlToBytes : Data → Option Data
  | .pair (.const .b64) b => some b
  | _ => none

theorem b64urlToBytes_eq_some {d b : Data} : b64urlToBytes d = some b ↔ d = bytesToB64url b := by
  constructor
  · intro h
    unfold b64urlToBytes at h
    split at h
    · cases h; rfl
    · simp at h
  · rintro rfl
    rfl

/-- The data that are 32 bytes long. -/
def isKey : Data → Bool
  | .name _ | .pub _ | .dh _ _ | .kdf _ _ => true
  | .const .zeros => true
  | _ => false

def keyToString (key : Data) : Data := bytesToB64url key

def keyFromString (s : Data) : Option Data := (b64urlToBytes s).filter isKey

def sealUnderKe (ke bytes : Data) : Data := encryptMessage (.kdf .keyx ke) (bytesToB64url bytes)

def openUnderKe (ke env : Data) : Option Data :=
  (decryptMessage (.kdf .keyx ke) env).bind b64urlToBytes

theorem openUnderKe_eq_some {ke env b : Data} :
    openUnderKe ke env = some b ↔ env = sealUnderKe ke b := by
  simp [openUnderKe, decryptMessage, Option.bind_eq_some_iff, openBytes_eq_some,
    b64urlToBytes_eq_some, sealUnderKe, encryptMessage, sealBytes]

/-- `x25519.getSharedSecret`: throws unless the second argument is a public key. A private key that
is no longer a random value is known, and so is what it shares with anyone. -/
def getSharedSecret : Data → Data → Option Data
  | .name m, .pub n => some (.agree m n)
  | k, .pub n => some (.pair k (.pub n))
  | _, _ => none

def pairKey (myPriv theirPub : Data) : Option Data :=
  (getSharedSecret myPriv theirPub).map (.kdf .rekey)

def sealRoomKey (myPriv theirPub roomKey : Data) : Option Data :=
  (pairKey myPriv theirPub).map fun k => encryptMessage k (keyToString roomKey)

def openRoomKey (myPriv theirPub env : Data) : Option Data :=
  (pairKey myPriv theirPub).bind fun k => (decryptMessage k env).bind keyFromString

/-- The pair key does not depend on who computes it. -/
theorem pairKey_comm (m n : Name) : pairKey (.name m) (.pub n) = pairKey (.name n) (.pub m) := by
  simp [pairKey, getSharedSecret, Lib.Term.agree_comm]

theorem openRoomKey_eq_some {priv pub env key : Data} :
    openRoomKey priv pub env = some key ↔
      isKey key = true ∧ ∃ k, pairKey priv pub = some k ∧ env = .enc k (keyToString key) := by
  simp only [openRoomKey, decryptMessage, keyFromString, keyToString, Option.bind_eq_some_iff,
    Option.filter_eq_some_iff, b64urlToBytes_eq_some, openBytes_eq_some]
  constructor
  · rintro ⟨k, hk, m, rfl, rfl, hkey⟩
    exact ⟨hkey, k, hk, rfl⟩
  · rintro ⟨hkey, k, hk, rfl⟩
    exact ⟨k, hk, _, rfl, rfl, hkey⟩

/-! ## JSON -/

/-- The strings `0` to `4294967294` are the handles from here on, in order. -/
def indexBase : Handle := 0x100000000

def arrayIndex (key : Handle) : Option Nat :=
  if indexBase ≤ key ∧ key - indexBase < 0xFFFFFFFF then some (key - indexBase) else none

/-- The string `__proto__`. -/
def protoKey : Handle := 0x200000000

/-- The object whose members are written in this order, as its properties are listed. -/
def objectOf (es : List (Handle × Data)) : List (Handle × Data) :=
  Lib.JsMap.ownProperties arrayIndex (es.foldl (fun obj e => Lib.JsMap.set e.1 e.2 obj) [])

def entriesOf : List (Handle × Data) → Data
  | [] => .const .nil
  | (id, v) :: es => .pair (.pair (.const (.id id)) v) (entriesOf es)

/-- The text of an object with its members in this order. -/
def jsonText (es : List (Handle × Data)) : Data := .pair (.const .json) (entriesOf es)

/-- `JSON.stringify` of an object. -/
def jsonOf (es : List (Handle × Data)) : Data := jsonText (objectOf es)

def readEntries : Data → Option (List (Handle × Data))
  | .const .nil => some []
  | .pair (.pair (.const (.id id)) v) es => (readEntries es).map ((id, v) :: ·)
  | _ => none

/-- The elements of an array under their indices, from `i` on. -/
def readElements : Data → Handle → Option (List (Handle × Data))
  | .const .nil, _ => some []
  | .pair v vs, i => (readElements vs (i + 1)).map ((i, v) :: ·)
  | _, _ => none

/-- `Object.entries(JSON.parse(s))`; `none` where one of the two throws, and for a string, a number or
a boolean: no entry of these is base64url text. -/
def jsonEntries : Data → Option (List (Handle × Data))
  | .pair (.const .json) es => (readEntries es).map objectOf
  | .pair (.const .arr) vs => readElements vs indexBase
  | _ => none

@[simp] theorem readEntries_entriesOf (es : List (Handle × Data)) :
    readEntries (entriesOf es) = some es := by
  induction es with
  | nil => rfl
  | cons e es ih => simp [entriesOf, readEntries, ih]

@[simp] theorem jsonEntries_jsonText (es : List (Handle × Data)) :
    jsonEntries (jsonText es) = some (objectOf es) := by
  simp [jsonText, jsonEntries]

/-- Every property has been written. -/
theorem mem_objectOf {es : List (Handle × Data)} {e : Handle × Data} (h : e ∈ objectOf es) :
    e ∈ es := by
  have hfold (obj : Lib.JsMap Handle Data)
      (he : e ∈ es.foldl (fun obj e => Lib.JsMap.set e.1 e.2 obj) obj) : e ∈ obj ∨ e ∈ es := by
    clear h
    induction es generalizing obj with
    | nil => exact .inl he
    | cons e' es ih =>
      obtain he | he := ih _ he
      · exact (Lib.JsMap.mem_set he).elim (fun h => .inr (by simp [h])) .inl
      · exact .inr (List.mem_cons_of_mem _ he)
  exact (hfold [] ((Lib.JsMap.ownProperties_perm _ _).mem_iff.mp h)).resolve_left List.not_mem_nil

/-- What is read back from the text of an object is in it. -/
theorem mem_of_jsonOf {es es' : List (Handle × Data)} {e : Handle × Data}
    (h : jsonEntries (jsonOf es) = some es') (he : e ∈ es') : e ∈ es := by
  rw [jsonOf, jsonEntries_jsonText] at h
  obtain rfl := Option.some.inj h
  exact mem_objectOf (mem_objectOf he)

/-! ## `spake2.ts` -/

structure Spake2State where
  role        : PakeRole
  code        : Data
  handshakeId : Handle
  message     : Data
deriving DecidableEq

structure Spake2Result where
  ke          : Data
  confirm     : Data
  /-- The only confirmation `verifyPeer` accepts. -/
  peerConfirm : Data
deriving DecidableEq

/-- `start` (`spake2.ts:67`) with the scalar `x`. -/
def start (role : PakeRole) (code : Data) (hsId : Handle) (x : Data) : Spake2State where
  role := role
  code := code
  handshakeId := hsId
  message := .tag .point (.pair x (.pair code (.pair (.const (.id hsId)) (.const (.role role)))))

/-- `Ke` of a transcript (`spake2.ts:101-121`). -/
def keOf (code : Data) (hsId : Handle) (pA pB : Data) : Data :=
  .kdf .ke (.pair code (.pair (.const (.id hsId)) (.pair pA pB)))

/-- `finish` (`spake2.ts:86`); `none` where it throws on the peer's point. -/
def finish (st : Spake2State) (peerPoint : Data) : Option Spake2Result :=
  match peerPoint with
  | .tag .point _ =>
    let ke := match st.role with
      | .A => keOf st.code st.handshakeId st.message peerPoint
      | .B => keOf st.code st.handshakeId peerPoint st.message
    some { ke, confirm := .tag (.confirm st.role) ke, peerConfirm := .tag (.confirm st.role.other) ke }
  | _ => none

/-! ## `handshake.ts` -/

/-- The state of a `HandshakeSession`. -/
structure HandshakeSession where
  state              : Spake2State
  result             : Option Spake2Result := none
  pendingPeerConfirm : Option Data := none
  done               : Bool := false
deriving DecidableEq

/-- The callback a call of `onData` ends in. -/
inductive Verdict
  | none
  | confirmed (ke : Data)
  | failed
deriving DecidableEq

def pakeFrame (t : Const) (d : Data) : Data := .pair (.const t) d

namespace HandshakeSession

/-- The constructor; it sends `pakeFrame .pakeM` of the message. -/
def new (role : PakeRole) (code : Data) (hsId : Handle) (x : Data) : HandshakeSession :=
  { state := start role code hsId x }

def fail (h : HandshakeSession) : HandshakeSession × Verdict :=
  if h.done then (h, .none) else ({ h with done := true }, .failed)

def verify (h : HandshakeSession) (peerConfirm : Data) : HandshakeSession × Verdict :=
  match h.result with
  | none => (h, .none)
  | some r =>
    if peerConfirm = r.peerConfirm then ({ h with done := true }, .confirmed r.ke) else h.fail

def handleConfirm (h : HandshakeSession) (peerConfirm : Data) : HandshakeSession × Verdict :=
  match h.result with
  | none => ({ h with pendingPeerConfirm := some peerConfirm }, .none)
  | some _ => h.verify peerConfirm

/-- The new state, the confirmation sent, the callback. -/
def handlePoint (h : HandshakeSession) (peerPoint : Data) :
    HandshakeSession × Option Data × Verdict :=
  match h.result with
  | some _ => (h, none, .none)
  | none =>
    match finish h.state peerPoint with
    | none => let (h, v) := h.fail; (h, none, v)
    | some r =>
      let h := { h with result := some r }
      match h.pendingPeerConfirm with
      | none => (h, some r.confirm, .none)
      | some pc =>
        let (h, v) := { h with pendingPeerConfirm := none }.verify pc
        (h, some r.confirm, v)

/-- `onData` (`handshake.ts:43`). -/
def onData (h : HandshakeSession) (dataStr : Data) : HandshakeSession × Option Data × Verdict :=
  if h.done then (h, none, .none)
  else match dataStr with
    | .pair (.const .pakeM) d => h.handlePoint d
    | .pair (.const .pakeC) d => let (h, v) := h.handleConfirm d; (h, none, v)
    | _ => (h, none, .none)

end HandshakeSession
end E2EAnon.Web
