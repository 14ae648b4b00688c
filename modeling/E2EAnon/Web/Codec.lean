import Mathlib.Data.List.DropRight
import E2EAnon.Lib.Base64
import E2EAnon.Web.Spake2

/-!
# The codecs of `crypto.ts`, byte by byte

| here | there |
| --- | --- |
| `Ciphers`          | what `crypto.ts` takes from `@noble`: XChaCha20-Poly1305, HKDF-SHA256, X25519 |
| `Ciphers.Lawful`   | what it relies on: opening undoes sealing, the lengths of tags and derived keys, and both sides of an agreement compute one secret |
| `Nonce`            | the 24 bytes `sealBytes` draws (`crypto.ts:39`) |
| `KeyPair`          | `crypto.ts:84`, with what `generateKeyPair` makes true of it |

Functions return `none` where the source throws. `codecs_round_trip` is about every codec of the
file; `encryptMessage_round_trip` says which texts come back as they were sent.
-/

namespace E2EAnon.Web

open Lib

/-- `encrypt` and `decrypt` take the key, the nonce and the text. -/
structure Ciphers where
  encrypt         : Bytes → Bytes → Bytes → Option Bytes
  decrypt         : Bytes → Bytes → Bytes → Option Bytes
  /-- The input key, the salt, the info and the length. -/
  hkdf            : Bytes → Bytes → Bytes → Nat → Bytes
  getPublicKey    : Bytes → Option Bytes
  getSharedSecret : Bytes → Bytes → Option Bytes

namespace Ciphers

/-! ## Constants -/

/-- `VERSION`. -/
def version : UInt8 := 0x01

/-- `KEY_LEN`. -/
def keyLen : Nat := 32

/-- `NONCE_LEN`. -/
def nonceLen : Nat := 24

/-- `TAG_LEN`. -/
def tagLen : Nat := 16

/-- `KEYX_INFO`. -/
def keyxInfo : Bytes := JsString.encode (JsString.lit "anonchat-keyx-v1")

/-- `REKEY_INFO`. -/
def rekeyInfo : Bytes := JsString.encode (JsString.lit "anonchat-rekey-v1")

abbrev Nonce := {n : Bytes // n.length = nonceLen}

structure Lawful (P : Ciphers) : Prop where
  aead  : ∀ key nonce pt, key.length = keyLen → nonce.length = nonceLen →
    ∃ ct, P.encrypt key nonce pt = some ct ∧ ct.length = pt.length + tagLen ∧
      P.decrypt key nonce ct = some pt
  hkdf  : ∀ ikm salt info, (P.hkdf ikm salt info keyLen).length = keyLen
  agree : ∀ a b pa pb, a.length = 32 → b.length = 32 → P.getPublicKey a = some pa →
    P.getPublicKey b = some pb →
      ∃ s, P.getSharedSecret a pb = some s ∧ P.getSharedSecret b pa = some s

structure KeyPair (P : Ciphers) where
  pub  : Bytes
  priv : Bytes
  priv_length : priv.length = 32
  pub_eq      : P.getPublicKey priv = some pub

/-! ## Base64 (`crypto.ts:126-169`) -/

def bytesToB64 (b : Bytes) : Option JsString := Base64.btoa (b.map fun x => UInt16.ofNat x.toNat)

def b64ToBytes (s : JsString) : Option Bytes :=
  (Base64.atob s).map (·.map fun u => UInt8.ofNat u.toNat)

/-- `s.replace(/c/g, c')`. -/
def replace (c c' : UInt16) (s : JsString) : JsString := s.map fun u => if u = c then c' else u

/-- `+` becomes `-`, `/` becomes `_`, and the `=` at the end go. -/
def b64ToB64url (s : JsString) : JsString :=
  (replace 47 95 (replace 43 45 s)).rdropWhile (· = Base64.pad)

def b64urlToB64 (s : JsString) : JsString :=
  let t := replace 95 47 (replace 45 43 s)
  let pad := if t.length % 4 = 0 then [] else List.replicate (4 - t.length % 4) Base64.pad
  t ++ pad

def bytesToB64url (b : Bytes) : Option JsString := (bytesToB64 b).map b64ToB64url

def b64urlToBytes (s : JsString) : Option Bytes := b64ToBytes (b64urlToB64 s)

def keyToString (key : Bytes) : Option JsString := (bytesToB64 key).map b64ToB64url

def keyFromString (s : JsString) : Option Bytes := do
  let k ← b64ToBytes (b64urlToB64 s)
  if k.length ≠ keyLen then none else some k

/-! ## Envelopes (`crypto.ts:38-66`) -/

variable (P : Ciphers)

def sealBytes (key : Bytes) (nonce : Nonce) (pt : Bytes) : Option JsString := do
  let ct ← P.encrypt key nonce.1 pt
  bytesToB64 (version :: nonce.1 ++ ct)

def openBytes (key : Bytes) (envelope : JsString) : Option Bytes := do
  let buf ← b64ToBytes envelope
  if buf.length < 1 + nonceLen + tagLen then none
  else if buf.head? ≠ some version then none
  else
    let nonce := (buf.take (1 + nonceLen)).drop 1
    let ct := buf.drop (1 + nonceLen)
    P.decrypt key nonce ct

def encryptMessage (key : Bytes) (nonce : Nonce) (plaintext : JsString) : Option JsString :=
  P.sealBytes key nonce (JsString.encode plaintext)

def decryptMessage (key : Bytes) (envelope : JsString) : Option JsString :=
  (P.openBytes key envelope).map JsString.decode

/-! ## Keys in transit (`crypto.ts:103-124`) -/

def sealUnderKe (ke : Bytes) (nonce : Nonce) (bytes : Bytes) : Option JsString := do
  P.encryptMessage (P.hkdf ke [] keyxInfo keyLen) nonce (← bytesToB64url bytes)

def openUnderKe (ke : Bytes) (env : JsString) : Option Bytes := do
  b64urlToBytes (← P.decryptMessage (P.hkdf ke [] keyxInfo keyLen) env)

def pairKey (myPriv theirPub : Bytes) : Option Bytes := do
  let shared ← P.getSharedSecret myPriv theirPub
  some (P.hkdf shared [] rekeyInfo keyLen)

def sealRoomKey (myPriv theirPub : Bytes) (nonce : Nonce) (roomKey : Bytes) : Option JsString := do
  P.encryptMessage (← P.pairKey myPriv theirPub) nonce (← keyToString roomKey)

def openRoomKey (myPriv theirPub : Bytes) (env : JsString) : Option Bytes := do
  keyFromString (← P.decryptMessage (← P.pairKey myPriv theirPub) env)

/-! ## Base64 comes back -/

theorem bytesToB64_eq (b : Bytes) : bytesToB64 b = some (Base64.encode b) := by
  have hall : (b.map fun x => UInt16.ofNat x.toNat).all (·.toNat < 0x100) = true := by
    simpa using fun x (_ : x ∈ b) => x.toNat_lt
  have hmap : (b.map fun x => UInt16.ofNat x.toNat).map (fun u => UInt8.ofNat u.toNat) = b := by
    simp [Function.comp_def]
  rw [bytesToB64, Base64.btoa, if_pos hall, hmap]

theorem b64ToBytes_eq (s : JsString) : b64ToBytes s = Base64.decode s := by
  simp [b64ToBytes, Base64.atob, Function.comp_def]

theorem b64ToBytes_encode (b : Bytes) : b64ToBytes (Base64.encode b) = some b := by
  rw [b64ToBytes_eq, Base64.decode_encode]

/-- The digit of the URL alphabet for one of the standard alphabet. -/
def urlDigit (u : UInt16) : UInt16 := if u = 43 then 45 else if u = 47 then 95 else u

theorem urlDigit_spec : ∀ n < 64, urlDigit (Base64.digit n) ≠ 43 ∧ urlDigit (Base64.digit n) ≠ 47 ∧
    urlDigit (Base64.digit n) ≠ Base64.pad ∧ (urlDigit (Base64.digit n)).toNat < 0x80 ∧
    replace 95 47 (replace 45 43 [urlDigit (Base64.digit n)]) = [Base64.digit n] := by
  decide

/-- What `bytesToB64url` writes. -/
def urlDigits (b : Bytes) : JsString := (Base64.digits b).map urlDigit

theorem mem_urlDigits {b : Bytes} {u : UInt16} (hu : u ∈ urlDigits b) :
    u ≠ 43 ∧ u ≠ 47 ∧ u ≠ Base64.pad ∧ u.toNat < 0x80 := by
  obtain ⟨d, hd, rfl⟩ := List.mem_map.mp hu
  obtain ⟨n, hn, rfl⟩ := Base64.mem_digits hd
  have h := urlDigit_spec n hn
  exact ⟨h.1, h.2.1, h.2.2.1, h.2.2.2.1⟩

theorem isAscii_urlDigits (b : Bytes) : JsString.IsAscii (urlDigits b) :=
  fun _ hu => (mem_urlDigits hu).2.2.2

theorem replace_url (s : JsString) : replace 47 95 (replace 43 45 s) = s.map urlDigit := by
  simp only [replace, List.map_map]
  refine List.map_congr_left fun u _ => ?_
  by_cases hu : u = 43
  · simp [urlDigit, hu]
  · simp [urlDigit, hu]

theorem replace_urlDigits (b : Bytes) :
    replace 95 47 (replace 45 43 (urlDigits b)) = Base64.digits b := by
  simp only [replace, urlDigits, List.map_map]
  refine (List.map_congr_left fun d hd => ?_).trans (List.map_id _)
  obtain ⟨n, hn, rfl⟩ := Base64.mem_digits hd
  exact List.singleton_inj.mp (urlDigit_spec n hn).2.2.2.2

theorem b64ToB64url_encode (b : Bytes) : b64ToB64url (Base64.encode b) = urlDigits b := by
  have hpad : urlDigit Base64.pad = Base64.pad := rfl
  have hstrip : ∀ p : Nat, (urlDigits b ++ List.replicate p Base64.pad).rdropWhile
      (· = Base64.pad) = urlDigits b := by
    intro p
    induction p with
    | zero =>
      rw [List.replicate_zero, List.append_nil, List.rdropWhile_eq_self_iff]
      intro hne
      simpa using (mem_urlDigits (List.getLast_mem hne)).2.2.1
    | succ p ih =>
      rw [List.replicate_succ', ← List.append_assoc, List.rdropWhile_concat_pos _ _ _ (by simp), ih]
  rw [b64ToB64url, replace_url, Base64.encode, List.map_append, List.map_replicate, hpad]
  exact hstrip _

theorem bytesToB64url_eq (b : Bytes) : bytesToB64url b = some (urlDigits b) := by
  rw [bytesToB64url, bytesToB64_eq, Option.map_some, b64ToB64url_encode]

/-- The padding that is rebuilt from the length. -/
theorem b64urlToBytes_urlDigits (b : Bytes) : b64urlToBytes (urlDigits b) = some b := by
  have hodd : (Base64.digits b).length % 4 ≠ 1 := by
    rw [Base64.length_digits]
    omega
  unfold b64urlToBytes b64urlToB64
  dsimp only
  rw [replace_urlDigits, b64ToBytes_eq]
  split
  · exact Base64.decode_digits b (Nat.zero_le 2) (Or.inl rfl)
  · exact Base64.decode_digits b (by omega) (Or.inr (by omega))

/-- `keyFromString` is `b64urlToBytes` with a check of the length. -/
theorem keyFromString_eq_some {s : JsString} {k : Bytes} :
    keyFromString s = some k ↔ b64urlToBytes s = some k ∧ k.length = keyLen := by
  simp only [keyFromString, b64urlToBytes, Option.bind_eq_bind, Option.bind_eq_some_iff,
    Option.ite_none_left_eq_some, Option.some.injEq, not_not]
  constructor
  · rintro ⟨k', hk, hlen, rfl⟩
    exact ⟨hk, hlen⟩
  · rintro ⟨hk, hlen⟩
    exact ⟨k, hk, hlen, rfl⟩

/-! ## Envelopes come back -/

variable {P} {key : Bytes} {nonce : Nonce} {pt : Bytes}

/-- What is sealed, and how long it is. -/
theorem sealBytes_eq (hP : P.Lawful) (hkey : key.length = keyLen) (nonce : Nonce) (pt : Bytes) :
    ∃ ct, P.sealBytes key nonce pt = some (Base64.encode (version :: nonce.1 ++ ct)) ∧
      ct.length = pt.length + tagLen ∧ P.decrypt key nonce.1 ct = some pt := by
  obtain ⟨ct, hct, hlen, hopen⟩ := hP.aead key nonce.1 pt hkey nonce.2
  refine ⟨ct, ?_, hlen, hopen⟩
  simp [sealBytes, hct, bytesToB64_eq]

theorem openBytes_sealBytes (hP : P.Lawful) (hkey : key.length = keyLen) (nonce : Nonce)
    (pt : Bytes) : (P.sealBytes key nonce pt).bind (P.openBytes key) = some pt := by
  obtain ⟨ct, hseal, hlen, hopen⟩ := sealBytes_eq hP hkey nonce pt
  have hnonce := nonce.2
  have hlong : ¬ (version :: nonce.1 ++ ct).length < 1 + nonceLen + tagLen := by
    simp only [List.cons_append, List.length_cons, List.length_append]
    omega
  have htake : ((version :: nonce.1 ++ ct).take (1 + nonceLen)).drop 1 = nonce.1 := by
    rw [Nat.add_comm, List.cons_append, List.take_succ_cons, List.drop_one, List.tail_cons]
    exact List.take_left' hnonce
  have hdrop : (version :: nonce.1 ++ ct).drop (1 + nonceLen) = ct := by
    rw [Nat.add_comm, List.cons_append, List.drop_succ_cons]
    exact List.drop_left' hnonce
  simp only [hseal, Option.bind_some, openBytes, b64ToBytes_encode, Option.bind_eq_bind, hlong,
    if_false, htake, hdrop, hopen]
  simp

/-- A message comes back without a mark in front. -/
theorem decryptMessage_encryptMessage (hP : P.Lawful) (hkey : key.length = keyLen) (nonce : Nonce)
    {s : JsString} (hs : JsString.isWellFormed s = true) :
    (P.encryptMessage key nonce s).bind (P.decryptMessage key) = some (JsString.dropBom s) := by
  have hopen := openBytes_sealBytes hP hkey nonce (JsString.encode s)
  obtain ⟨env, henv, hopen⟩ := Option.bind_eq_some_iff.mp hopen
  rw [encryptMessage, henv, Option.bind_some, decryptMessage, hopen, Option.map_some,
    JsString.decode_encode hs]

theorem decryptMessage_encryptMessage_ascii (hP : P.Lawful) (hkey : key.length = keyLen)
    (nonce : Nonce) {s : JsString} (hs : JsString.IsAscii s) :
    (P.encryptMessage key nonce s).bind (P.decryptMessage key) = some s := by
  rw [decryptMessage_encryptMessage hP hkey nonce (JsString.isWellFormed_ascii hs),
    ← JsString.decode_encode (JsString.isWellFormed_ascii hs), JsString.decode_encode_ascii hs]

theorem openUnderKe_sealUnderKe (hP : P.Lawful) (ke : Bytes) (nonce : Nonce) (b : Bytes) :
    (P.sealUnderKe ke nonce b).bind (P.openUnderKe ke) = some b := by
  have hback := decryptMessage_encryptMessage_ascii hP (hP.hkdf ke [] keyxInfo) nonce
    (isAscii_urlDigits b)
  obtain ⟨env, henv, hback⟩ := Option.bind_eq_some_iff.mp hback
  simp [sealUnderKe, openUnderKe, bytesToB64url_eq, henv, hback, b64urlToBytes_urlDigits]

theorem openRoomKey_sealRoomKey (hP : P.Lawful) (X Y : P.KeyPair) (nonce : Nonce) {r : Bytes}
    (hr : r.length = keyLen) :
    (P.sealRoomKey X.priv Y.pub nonce r).bind (P.openRoomKey Y.priv X.pub) = some r := by
  obtain ⟨s, hX, hY⟩ := hP.agree _ _ _ _ X.priv_length Y.priv_length X.pub_eq Y.pub_eq
  have hback := decryptMessage_encryptMessage_ascii hP (hP.hkdf s [] rekeyInfo) nonce
    (isAscii_urlDigits r)
  obtain ⟨env, henv, hback⟩ := Option.bind_eq_some_iff.mp hback
  have hread : keyFromString (urlDigits r) = some r :=
    keyFromString_eq_some.mpr ⟨b64urlToBytes_urlDigits r, hr⟩
  have hstr : keyToString r = some (urlDigits r) := bytesToB64url_eq r
  simp [sealRoomKey, openRoomKey, pairKey, hX, hY, hstr, henv, hback, hread]

theorem openRoomKey_eq_some {myPriv theirPub : Bytes} {env : JsString} {k : Bytes}
    (h : P.openRoomKey myPriv theirPub env = some k) :
    ∃ wrap text, P.pairKey myPriv theirPub = some wrap ∧ P.decryptMessage wrap env = some text ∧
      b64urlToBytes text = some k ∧ k.length = keyLen := by
  simp only [openRoomKey, Option.bind_eq_bind, Option.bind_eq_some_iff] at h
  obtain ⟨wrap, hwrap, text, htext, hk⟩ := h
  obtain ⟨hread, hlen⟩ := keyFromString_eq_some.mp hk
  exact ⟨wrap, text, hwrap, htext, hread, hlen⟩

/-- A suite in which everything can be computed: the text is followed by a tag. -/
def small : Ciphers where
  encrypt key nonce pt :=
    if key.length = keyLen ∧ nonce.length = nonceLen then some (pt ++ key.take tagLen) else none
  decrypt key _ ct :=
    if ct.drop (ct.length - tagLen) = key.take tagLen then some (ct.take (ct.length - tagLen)) else none
  hkdf ikm _ info n := ((ikm ++ info).rightpad n 0).take n
  getPublicKey priv := if priv.length = 32 then some priv else none
  getSharedSecret priv pub := some (List.zipWith (· ^^^ ·) priv pub)

theorem small_lawful : small.Lawful where
  aead key nonce pt hkey hnonce := by
    have htag : (key.take tagLen).length = tagLen := by simp [hkey, keyLen, tagLen]
    have hlen : (pt ++ key.take tagLen).length - tagLen = pt.length := by simp [htag]
    refine ⟨pt ++ key.take tagLen, if_pos ⟨hkey, hnonce⟩, by simp [htag], ?_⟩
    simp only [small, hlen, List.drop_left, List.take_left, if_true]
  hkdf ikm salt info := by
    simp only [small, keyLen, List.length_take, List.rightpad, List.length_append,
      List.length_replicate]
    omega
  agree a b pa pb ha hb hpa hpb := by
    simp only [small, Option.ite_none_right_eq_some, Option.some.injEq] at hpa hpb ⊢
    obtain ⟨-, rfl⟩ := hpa
    obtain ⟨-, rfl⟩ := hpb
    exact ⟨_, rfl, List.zipWith_comm_of_comm UInt8.xor_comm⟩

/-! ## The round trips -/

/-- What `b64ToB64url` keeps out. -/
def urlSafe (u : UInt16) : Prop := u ≠ 43 ∧ u ≠ 47 ∧ u ≠ Base64.pad

/-- **The codecs round trip**, and a key that is read is 32 bytes long. -/
theorem codecs_round_trip (hP : P.Lawful) :
    (∀ key nonce b, key.length = keyLen →
      (P.sealBytes key nonce b).bind (P.openBytes key) = some b) ∧
    (∀ b, ∃ s, bytesToB64url b = some s ∧ b64urlToBytes s = some b ∧ ∀ u ∈ s, urlSafe u) ∧
    (∀ ke nonce b, (P.sealUnderKe ke nonce b).bind (P.openUnderKe ke) = some b) ∧
    (∀ r nonce, r.length = keyLen →
      (∀ X Y : P.KeyPair,
        (P.sealRoomKey X.priv Y.pub nonce r).bind (P.openRoomKey Y.priv X.pub) = some r) ∧
      (keyToString r).bind keyFromString = some r) ∧
    (∀ s k, keyFromString s = some k ↔ b64urlToBytes s = some k ∧ k.length = keyLen) ∧
    ∀ priv pub env k, P.openRoomKey priv pub env = some k →
      ∃ wrap text, P.pairKey priv pub = some wrap ∧ P.decryptMessage wrap env = some text ∧
        b64urlToBytes text = some k ∧ k.length = keyLen := by
  refine ⟨fun key nonce b hkey => openBytes_sealBytes hP hkey nonce b, fun b => ?_,
    openUnderKe_sealUnderKe hP, fun r nonce hr => ⟨fun X Y => openRoomKey_sealRoomKey hP X Y nonce hr, ?_⟩,
    fun _ _ => keyFromString_eq_some, fun _ _ _ _ => openRoomKey_eq_some⟩
  · refine ⟨urlDigits b, bytesToB64url_eq b, b64urlToBytes_urlDigits b, fun u hu => ?_⟩
    have h := mem_urlDigits hu
    exact ⟨h.1, h.2.1, h.2.2.1⟩
  · have hstr : keyToString r = some (urlDigits r) := bytesToB64url_eq r
    rw [hstr, Option.bind_some, keyFromString_eq_some]
    exact ⟨b64urlToBytes_urlDigits r, hr⟩

def sampleNonce : Nonce := ⟨List.replicate 24 7, rfl⟩

def sampleKey : Bytes := List.replicate 32 1

def samplePair (b : UInt8) : small.KeyPair where
  pub := List.replicate 32 b
  priv := List.replicate 32 b
  priv_length := rfl
  pub_eq := rfl

theorem codecs_round_trip_sample :
    (small.sealBytes sampleKey sampleNonce [0, 255]).bind (small.openBytes sampleKey) =
      some [0, 255] ∧
    (small.sealRoomKey (samplePair 1).priv (samplePair 2).pub sampleNonce sampleKey).bind
      (small.openRoomKey (samplePair 2).priv (samplePair 1).pub) = some sampleKey :=
  have h := codecs_round_trip small_lawful
  ⟨h.1 sampleKey sampleNonce [0, 255] rfl,
    (h.2.2.2.1 sampleKey sampleNonce rfl).1 (samplePair 1) (samplePair 2)⟩

/-- **Text messages round trip** but for a U+FEFF in front. -/
theorem message_round_trip (hP : P.Lawful) (hkey : key.length = keyLen) (nonce : Nonce)
    {s : JsString} (hs : JsString.isWellFormed s = true) :
    (P.encryptMessage key nonce s).bind (P.decryptMessage key) = some s ↔
      s.head? ≠ some 0xFEFF := by
  rw [decryptMessage_encryptMessage hP hkey nonce hs, Option.some_inj]
  exact JsString.dropBom_eq_self

theorem message_round_trip_sample :
    (small.encryptMessage sampleKey sampleNonce (JsString.lit "hello")).bind
      (small.decryptMessage sampleKey) = some (JsString.lit "hello") :=
  (message_round_trip small_lawful rfl sampleNonce (by decide +kernel)).mpr (by decide +kernel)

/-- The mark is lost. -/
theorem message_round_trip_bom :
    JsString.isWellFormed (0xFEFF :: JsString.lit "hello") = true ∧
    (small.encryptMessage sampleKey sampleNonce (0xFEFF :: JsString.lit "hello")).bind
      (small.decryptMessage sampleKey) = some (JsString.lit "hello") ∧
    JsString.lit "hello" ≠ 0xFEFF :: JsString.lit "hello" := by
  decide +kernel

end Ciphers
end E2EAnon.Web
