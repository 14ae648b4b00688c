import E2EAnon.Lib.JsMap
import E2EAnon.Lib.Json
import E2EAnon.Web.Chunking
import E2EAnon.Web.Codec

/-!
# The client's frames and the relay's read limit (`main.ts:230`, `server.go:26`, `:103`)

| here | there |
| --- | --- |
| `readLimit`     | `server.go:27`; a longer message ends the connection |
| `msgFrame`      | the message form (`main.ts:1028`) |
| `rosterFrame`   | `broadcastRoster` (`main.ts:486`) |
| `fileChunkFrame` | `sendFile` (`main.ts:711`), with what `randomId` (`main.ts:669`) draws |

A frame is the text `send` gives to the socket; on the wire it has `JsString.size` bytes. A file is
cut into chunks that fit. A message and a roster are sealed whole, however long they are
(`frames_fit`).
-/

namespace E2EAnon.Web

open Lib

/-- 256 KiB. -/
def readLimit : Nat := 256 <<< 10

/-- `MAX_FILE_BYTES`. -/
def maxFileBytes : Nat := 10 * 1024 * 1024

namespace Ciphers

variable (P : Ciphers)

/-! ## The frames -/

/-- An object of strings and numbers. -/
def object (kvs : List (String × Json.Field)) : JsString :=
  Json.stringify (kvs.map fun kv => (JsString.lit kv.1, kv.2))

def text (s : String) : Json.Field := .str (JsString.lit s)

def msgFrame (key : Bytes) (nonce : Nonce) (body : JsString) : Option JsString := do
  let env ← P.encryptMessage key nonce body
  some (object [("type", text "msg"), ("body", .str env)])

def protoKey : JsString := JsString.lit "__proto__"

/-- `obj` (`main.ts:488`): the client's own key, then the keys of the others. -/
def rosterObject (memberId : JsString) (pub : Bytes) (memberPubs : JsMap JsString Bytes) :
    Option (JsMap JsString JsString) := do
  let own ← bytesToB64url pub
  memberPubs.foldlM (fun obj e => do
    let b64 ← bytesToB64url e.2
    some (JsMap.assign protoKey e.1 b64 obj)) [(memberId, own)]

/-- `JSON.stringify(obj)`. -/
def rosterText (obj : JsMap JsString JsString) : JsString :=
  Json.stringify ((JsMap.ownProperties JsString.arrayIndex obj).map fun e => (e.1, .str e.2))

def rosterFrame (key : Bytes) (nonce : Nonce) (memberId : JsString) (pub : Bytes)
    (memberPubs : JsMap JsString Bytes) : Option JsString := do
  let obj ← rosterObject memberId pub memberPubs
  let env ← P.encryptMessage key nonce (rosterText obj)
  some (object [("type", text "roster"), ("data", .str env)])

/-- Two hexadecimal digits a byte. -/
def randomId (b : Bytes) : JsString :=
  b.flatMap fun x => [Json.hexDigit (x.toNat / 16), Json.hexDigit (x.toNat % 16)]

def fileChunkFrame (key : Bytes) (nonce : Nonce) (transfer : JsString) (buf : Bytes) (i : Nat) :
    Option JsString := do
  let data ← P.sealBytes key nonce (subarray buf (i * chunkSize) ((i + 1) * chunkSize))
  some (object [("type", text "file_chunk"), ("transfer", .str transfer), ("index", .num i),
    ("data", .str data)])

/-! ## Sizes -/

/-- The bytes of an envelope over `n` bytes. -/
def envelopeSize (n : Nat) : Nat := 4 * ((1 + nonceLen + (n + tagLen) + 2) / 3)

variable {P} {key : Bytes} {nonce : Nonce} {pt b : Bytes}

theorem plain_of {u : UInt16} (hlow : 0x22 < u.toNat) (hhigh : u.toNat < 0x80) (hb : u ≠ 92) :
    Json.Plain u := by
  refine ⟨by omega, hhigh, ?_, hb⟩
  rintro rfl
  exact absurd hlow (by decide)

theorem plain_encode (b : Bytes) : ∀ u ∈ Base64.encode b, Json.Plain u := by
  intro u hu
  obtain ⟨n, hn, rfl⟩ | rfl := Base64.mem_encode hu
  · have h := Base64.digit_spec n hn
    exact plain_of h.2.2.2.2.1 h.2.2.2.1 h.2.2.2.2.2
  · exact plain_of (by decide) (by decide) (by decide)

theorem plain_urlDigits (b : Bytes) : ∀ u ∈ urlDigits b, Json.Plain u := by
  have hplain : ∀ n < 64, 0x22 < (urlDigit (Base64.digit n)).toNat ∧
      (urlDigit (Base64.digit n)).toNat < 0x80 ∧ urlDigit (Base64.digit n) ≠ 92 := by decide
  intro u hu
  obtain ⟨d, hd, rfl⟩ := List.mem_map.mp hu
  obtain ⟨n, hn, rfl⟩ := Base64.mem_digits hd
  have h := hplain n hn
  exact plain_of h.1 h.2.1 h.2.2

/-- A member that holds an envelope. -/
theorem sealBytes_size (hP : P.Lawful) (hkey : key.length = keyLen) (nonce : Nonce) (pt : Bytes)
    (name : String) :
    ∃ env, P.sealBytes key nonce pt = some env ∧
      Json.memberSize (JsString.lit name, .str env) =
        JsString.size (Json.quote (JsString.lit name)) + envelopeSize pt.length + 4 := by
  obtain ⟨ct, hseal, hlen, -⟩ := sealBytes_eq hP hkey nonce pt
  refine ⟨_, hseal, ?_⟩
  have hbuf : (version :: nonce.1 ++ ct).length = 1 + nonceLen + (pt.length + tagLen) := by
    rw [List.cons_append, List.length_cons, List.length_append, nonce.2, hlen]
    omega
  simp only [Json.memberSize, Json.Field.text, Json.size_quote_plain (plain_encode _),
    Base64.length_encode, hbuf, envelopeSize]
  omega

/-- A message over `n` bytes of text. -/
theorem msgFrame_size (hP : P.Lawful) (hkey : key.length = keyLen) (nonce : Nonce)
    (body : JsString) :
    ∃ f, P.msgFrame key nonce body = some f ∧
      JsString.size f = 24 + envelopeSize (JsString.size body) := by
  obtain ⟨env, henv, hsize⟩ := sealBytes_size hP hkey nonce (JsString.encode body) "body"
  have henv : P.encryptMessage key nonce body = some env := henv
  have htype : Json.memberSize (JsString.lit "type", text "msg") = 13 := by decide +kernel
  have hbody : JsString.size (Json.quote (JsString.lit "body")) = 6 := by decide +kernel
  refine ⟨_, by rw [msgFrame, henv]; rfl, ?_⟩
  rw [object, List.map_cons, Json.size_stringify]
  simp only [List.map_cons, List.map_nil, List.sum_cons, List.sum_nil, htype, hsize, hbody]
  rw [← JsString.size]
  omega

/-- A roster over an object of `n` bytes. -/
theorem rosterFrame_size (hP : P.Lawful) (hkey : key.length = keyLen) (nonce : Nonce)
    {memberId : JsString} {pub : Bytes} {memberPubs : JsMap JsString Bytes}
    {obj : JsMap JsString JsString} (hobj : rosterObject memberId pub memberPubs = some obj) :
    ∃ f, P.rosterFrame key nonce memberId pub memberPubs = some f ∧ JsString.size f =
      27 + envelopeSize (JsString.size (rosterText obj)) := by
  obtain ⟨env, henv, hsize⟩ := sealBytes_size hP hkey nonce (JsString.encode (rosterText obj)) "data"
  have henv : P.encryptMessage key nonce (rosterText obj) = some env := henv
  have htype : Json.memberSize (JsString.lit "type", text "roster") = 16 := by decide +kernel
  have hdata : JsString.size (Json.quote (JsString.lit "data")) = 6 := by decide +kernel
  refine ⟨_, by rw [rosterFrame, hobj, Option.bind_eq_bind, Option.bind_some, henv]; rfl, ?_⟩
  rw [object, List.map_cons, Json.size_stringify]
  simp only [List.map_cons, List.map_nil, List.sum_cons, List.sum_nil, htype, hsize, hdata]
  rw [← JsString.size]
  omega

/-! ## The roster's object -/

/-- The keys in `obj`. -/
def rosterKeys (memberId : JsString) (pub : Bytes) (memberPubs : JsMap JsString Bytes) :
    JsMap JsString Bytes :=
  memberPubs.foldl (fun keys e => JsMap.assign protoKey e.1 e.2 keys) [(memberId, pub)]

def entryText (e : JsString × Bytes) : JsString × JsString := (e.1, urlDigits e.2)

theorem rosterObject_eq (memberId : JsString) (pub : Bytes) (memberPubs : JsMap JsString Bytes) :
    rosterObject memberId pub memberPubs =
      some ((rosterKeys memberId pub memberPubs).map entryText) := by
  have hfold : ∀ keys : JsMap JsString Bytes,
      memberPubs.foldlM (fun obj e => do
        let b64 ← bytesToB64url e.2
        some (JsMap.assign protoKey e.1 b64 obj)) (keys.map entryText) =
      some ((memberPubs.foldl (fun keys e => JsMap.assign protoKey e.1 e.2 keys) keys).map entryText) := by
    induction memberPubs with
    | nil => exact fun _ => rfl
    | cons e memberPubs ih =>
      intro keys
      have hassign : (JsMap.assign protoKey e.1 e.2 keys).map entryText =
          JsMap.assign protoKey e.1 (urlDigits e.2) (keys.map entryText) := JsMap.map_assign urlDigits
      rw [List.foldlM_cons, bytesToB64url_eq, List.foldl_cons, ← ih, hassign]
      rfl
  rw [rosterObject, bytesToB64url_eq]
  exact hfold [(memberId, pub)]

theorem rosterKeys_ne_nil (memberId : JsString) (pub : Bytes) (memberPubs : JsMap JsString Bytes) :
    rosterKeys memberId pub memberPubs ≠ [] := by
  have hfold : ∀ keys : JsMap JsString Bytes, keys ≠ [] →
      memberPubs.foldl (fun keys e => JsMap.assign protoKey e.1 e.2 keys) keys ≠ [] := by
    induction memberPubs with
    | nil => exact fun _ h => h
    | cons e memberPubs ih => exact fun keys h => ih _ (JsMap.assign_ne_nil h)
  exact hfold _ (by simp)

/-- What an entry adds to the object. -/
def entrySize (e : JsString × Bytes) : Nat :=
  JsString.size (Json.quote e.1) + (4 * e.2.length + 2) / 3 + 4

theorem memberSize_entry (e : JsString × Bytes) :
    Json.memberSize (e.1, .str (urlDigits e.2)) = entrySize e := by
  have hlen : (urlDigits e.2).length = (4 * e.2.length + 2) / 3 := by
    rw [urlDigits, List.length_map, Base64.length_digits]
  simp only [Json.memberSize, Json.Field.text, Json.size_quote_plain (plain_urlDigits _), hlen,
    entrySize]
  omega

/-- The order of the properties makes no difference to the length. -/
theorem rosterText_size (memberId : JsString) (pub : Bytes) (memberPubs : JsMap JsString Bytes) :
    JsString.size (rosterText ((rosterKeys memberId pub memberPubs).map entryText)) =
      1 + ((rosterKeys memberId pub memberPubs).map entrySize).sum := by
  have hperm := JsMap.ownProperties_perm JsString.arrayIndex
    ((rosterKeys memberId pub memberPubs).map entryText)
  have hsize : ∀ es : JsMap JsString Bytes, ((es.map entryText).map fun e => (e.1, Json.Field.str e.2)).map
      Json.memberSize = es.map entrySize := by
    intro es
    rw [List.map_map, List.map_map]
    exact List.map_congr_left fun e _ => memberSize_entry e
  rw [← hsize, ← ((hperm.map fun e => (e.1, Json.Field.str e.2)).map Json.memberSize).sum_eq, rosterText]
  have hne : JsMap.ownProperties JsString.arrayIndex
      ((rosterKeys memberId pub memberPubs).map entryText) ≠ [] := by
    intro hnil
    rw [hnil, List.nil_perm, List.map_eq_nil_iff] at hperm
    exact rosterKeys_ne_nil memberId pub memberPubs hperm
  obtain ⟨e, es, hkeys⟩ := List.exists_cons_of_ne_nil hne
  rw [hkeys, List.map_cons, Json.size_stringify]

/-- A roster of the ids the relay draws and keys of 32 bytes, by its number of members. -/
theorem rosterKeys_uniform {keys : JsMap JsString Bytes}
    (hid : ∀ e ∈ keys, e.1.length = 13 ∧ ∀ u ∈ e.1, Json.Plain u)
    (hpub : ∀ e ∈ keys, e.2.length = 32) : (keys.map entrySize).sum = 62 * keys.length := by
  have hsize : ∀ e ∈ keys, entrySize e = 62 := by
    intro e he
    rw [entrySize, Json.size_quote_plain (hid e he).2, (hid e he).1, hpub e he]
  rw [List.map_congr_left hsize, List.map_const', List.sum_replicate, smul_eq_mul, Nat.mul_comm]

/-! ## A chunk -/

theorem plain_randomId (b : Bytes) : ∀ u ∈ randomId b, Json.Plain u := by
  have hplain : ∀ n < 16, 0x22 < (Json.hexDigit n).toNat ∧ (Json.hexDigit n).toNat < 0x80 ∧
      Json.hexDigit n ≠ 92 := by decide
  intro u hu
  obtain ⟨x, -, hu⟩ := List.mem_flatMap.mp hu
  have hx := x.toNat_lt
  simp only [List.mem_cons, List.not_mem_nil, or_false] at hu
  obtain rfl | rfl := hu
  · have h := hplain (x.toNat / 16) (by omega)
    exact plain_of h.1 h.2.1 h.2.2
  · have h := hplain (x.toNat % 16) (by omega)
    exact plain_of h.1 h.2.1 h.2.2

theorem length_randomId (b : Bytes) : (randomId b).length = 2 * b.length := by
  simp [randomId, Nat.mul_comm]

theorem length_subarray (buf : Bytes) (i : Nat) :
    (subarray buf (i * chunkSize) ((i + 1) * chunkSize)).length ≤ chunkSize := by
  simp only [subarray, List.length_drop, List.length_take, chunkSize]
  omega

theorem fileChunkFrame_size (hP : P.Lawful) (hkey : key.length = keyLen) (nonce : Nonce)
    {random : Bytes} (hrandom : random.length = 16) (buf : Bytes) {i : Nat} (hi : i < 160) :
    ∃ f, P.fileChunkFrame key nonce (randomId random) buf i = some f ∧ JsString.size f ≤ 87525 := by
  obtain ⟨env, henv, hsize⟩ := sealBytes_size hP hkey nonce
    (subarray buf (i * chunkSize) ((i + 1) * chunkSize)) "data"
  have htype : Json.memberSize (JsString.lit "type", text "file_chunk") = 20 := by decide +kernel
  have hname : JsString.size (Json.quote (JsString.lit "transfer")) = 10 := by decide +kernel
  have hdata : JsString.size (Json.quote (JsString.lit "data")) = 6 := by decide +kernel
  have hindex : ∀ i < 160, Json.memberSize (JsString.lit "index", .num i) ≤ 12 := by decide +kernel
  have hindex := hindex i hi
  have htransfer : Json.memberSize (JsString.lit "transfer", .str (randomId random)) = 46 := by
    rw [Json.memberSize, hname, Json.Field.text, Json.size_quote_plain (plain_randomId random),
      length_randomId, hrandom]
  have hslice := length_subarray buf i
  refine ⟨_, by rw [fileChunkFrame, henv]; rfl, ?_⟩
  rw [object, List.map_cons, Json.size_stringify]
  simp only [List.map_cons, List.map_nil, List.sum_cons, List.sum_nil, htype, htransfer, hsize, hdata]
  simp only [envelopeSize, nonceLen, tagLen, chunkSize] at hslice ⊢
  omega

/-! ## Everything that is sent -/

/-- What the client puts into a frame: the text of the form, its roster, a chunk of a file. -/
inductive Outgoing
  | msg (body : JsString)
  | roster (memberId : JsString) (pub : Bytes) (memberPubs : JsMap JsString Bytes)
  | fileChunk (random buf : Bytes) (i : Nat)

/-- The frame, under a key. -/
def Outgoing.frame (P : Ciphers) (key : Bytes) (nonce : Nonce) : Outgoing → Option JsString
  | .msg body => P.msgFrame key nonce body
  | .roster memberId pub memberPubs => P.rosterFrame key nonce memberId pub memberPubs
  | .fileChunk random buf i => P.fileChunkFrame key nonce (randomId random) buf i

/-- `onFileSelected` takes the file, and `sendFile` comes to the chunk. -/
def Outgoing.Admitted : Outgoing → Prop
  | .msg _ | .roster _ _ _ => True
  | .fileChunk random buf i => random.length = 16 ∧ buf.length ≤ maxFileBytes ∧
      i < max 1 ((buf.length + (chunkSize - 1)) / chunkSize)

/-- The longest text, and the most a roster may add up to. -/
def Outgoing.Short : Outgoing → Prop
  | .msg body => JsString.size body ≤ 196549
  | .roster memberId pub memberPubs =>
    ((rosterKeys memberId pub memberPubs).map entrySize).sum ≤ 196545
  | .fileChunk _ _ _ => True

/-- **Which frames fit**: all chunks, and the texts and rosters up to a size. -/
theorem frames_fit (hP : P.Lawful) (hkey : key.length = keyLen) (nonce : Nonce) {x : Outgoing}
    (hx : x.Admitted) :
    ∃ f, x.frame P key nonce = some f ∧ (JsString.size f ≤ readLimit ↔ x.Short) := by
  have hlimit : readLimit = 262144 := rfl
  cases x with
  | msg body =>
    obtain ⟨f, hf, hsize⟩ := msgFrame_size hP hkey nonce body
    refine ⟨f, hf, ?_⟩
    simp only [hsize, hlimit, Outgoing.Short, envelopeSize, nonceLen, tagLen]
    omega
  | roster memberId pub memberPubs =>
    obtain ⟨f, hf, hsize⟩ :=
      rosterFrame_size hP hkey nonce (rosterObject_eq memberId pub memberPubs)
    refine ⟨f, hf, ?_⟩
    simp only [hsize, rosterText_size, hlimit, Outgoing.Short, envelopeSize, nonceLen, tagLen]
    omega
  | fileChunk random buf i =>
    obtain ⟨hrandom, hbuf, hi⟩ := hx
    have hindex : i < 160 := by
      simp only [maxFileBytes, chunkSize] at hbuf hi
      omega
    obtain ⟨f, hf, hsize⟩ := fileChunkFrame_size hP hkey nonce hrandom buf hindex
    exact ⟨f, hf, iff_of_true (by omega) trivial⟩

theorem frames_fit_sample :
    ∃ f, (Outgoing.msg (JsString.lit "hi")).frame small sampleKey sampleNonce = some f ∧
      (JsString.size f ≤ readLimit ↔ (Outgoing.msg (JsString.lit "hi")).Short) :=
  frames_fit small_lawful rfl sampleNonce trivial

/-- A text of 196550 letters. -/
theorem frames_fit_long_text :
    ∃ f, small.msgFrame sampleKey sampleNonce (List.replicate 196550 97) = some f ∧
      readLimit < JsString.size f := by
  have hkey : sampleKey.length = keyLen := rfl
  obtain ⟨f, hf, hsize⟩ := msgFrame_size small_lawful hkey sampleNonce (List.replicate 196550 97)
  have hascii : JsString.IsAscii (List.replicate 196550 97) := by
    intro u hu
    rw [List.eq_of_mem_replicate hu]
    decide
  refine ⟨f, hf, ?_⟩
  rw [hsize, JsString.size_ascii hascii, List.length_replicate]
  decide

end Ciphers
end E2EAnon.Web
