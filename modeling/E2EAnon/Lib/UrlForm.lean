import E2EAnon.Lib.JsString

/-!
# `encodeURIComponent` and `application/x-www-form-urlencoded`

`encodeURIComponent` makes bytes that separate nothing (`component_safe`). The parser of forms
splits at `&` and `=`, turns `+` into a space and decodes what is left: of one component it makes the
text (`component_read`), of `n1=v1&n2=v2&…` the list of the pairs (`parse_pairs`).
-/

namespace Lib.UrlForm

/-! ## Writing -/

def isAlnum (b : UInt8) : Bool :=
  48 ≤ b.toNat && b.toNat ≤ 57 || 65 ≤ b.toNat && b.toNat ≤ 90 || 97 ≤ b.toNat && b.toNat ≤ 122

/-- What `encodeURIComponent` leaves as it is: letters, digits and `-_.!~*'()`. -/
def unescaped (b : UInt8) : Bool := isAlnum b || [45, 95, 46, 33, 126, 42, 39, 40, 41].contains b

def hexUpper (n : Nat) : UInt8 := UInt8.ofNat (if n < 10 then 48 + n else 55 + n)

def escapeByte (b : UInt8) : List UInt8 :=
  if unescaped b then [b] else [37, hexUpper (b.toNat / 16), hexUpper (b.toNat % 16)]

/-- Bytes of ASCII as a string. -/
def ofBytes (bs : List UInt8) : JsString := bs.map fun b => UInt16.ofNat b.toNat

def component (s : JsString) : List UInt8 := (JsString.encode s).flatMap escapeByte

/-- `none` is a `URIError`. -/
def encodeURIComponent (s : JsString) : Option JsString :=
  if JsString.isWellFormed s then some (ofBytes (component s)) else none

/-! ## Reading -/

def hexByte (b : UInt8) : Option Nat :=
  if 48 ≤ b.toNat ∧ b.toNat ≤ 57 then some (b.toNat - 48)
  else if 65 ≤ b.toNat ∧ b.toNat ≤ 70 then some (b.toNat - 55)
  else if 97 ≤ b.toNat ∧ b.toNat ≤ 102 then some (b.toNat - 87)
  else none

/-- The byte of the two digits a text starts with. -/
def hexPair : List UInt8 → Option UInt8
  | h :: l :: _ => do
    let hi ← hexByte h
    let lo ← hexByte l
    some (UInt8.ofNat (hi * 16 + lo))
  | _ => none

/-- Percent-decoding with `skip` bytes of the last escape still to pass over. A `%` without two
digits behind it stands for itself. -/
def decodeFrom : Nat → List UInt8 → List UInt8
  | _, [] => []
  | skip + 1, _ :: bs => decodeFrom skip bs
  | 0, b :: bs =>
    if b = 37 then
      match hexPair bs with
      | some v => v :: decodeFrom 2 bs
      | none => b :: decodeFrom 0 bs
    else b :: decodeFrom 0 bs

/-- A name or a value: UTF-8 decode without BOM. -/
def decodeComponent (bs : List UInt8) : JsString :=
  JsString.ofChars (JsString.utf8Decode {} (decodeFrom 0 (bs.map fun b => if b = 43 then 32 else b)))

/-- The name ends at the first `=`. -/
def decodePair (bs : List UInt8) : JsString × JsString :=
  (decodeComponent (bs.takeWhile (· ≠ 61)), decodeComponent ((bs.dropWhile (· ≠ 61)).drop 1))

def parse (bs : List UInt8) : List (JsString × JsString) :=
  ((bs.splitOn 38).filter (· ≠ [])).map decodePair

/-- `new URLSearchParams(s)`, of which one `?` in front is dropped. -/
def searchParams (s : JsString) : List (JsString × JsString) :=
  parse (JsString.encode (if s.head? = some 63 then s.drop 1 else s))

/-- `URLSearchParams.get`. -/
def getFirst (ps : List (JsString × JsString)) (name : JsString) : Option JsString :=
  (ps.find? (·.1 = name)).map (·.2)

/-! ## What an escape is made of -/

/-- A byte that survives in a query: ASCII, no space, and none of `"#&+<=>?` and the backtick. -/
def safe (b : UInt8) : Bool :=
  33 ≤ b.toNat && b.toNat ≤ 126 && !([34, 35, 38, 43, 60, 61, 62, 63, 96].contains b)

theorem hexUpper_spec : ∀ n < 16, hexByte (hexUpper n) = some n ∧ safe (hexUpper n) = true := by
  decide

theorem safe_of_unescaped {b : UInt8} (h : unescaped b = true) : safe b = true := by
  have hall : ∀ n < 256, unescaped (UInt8.ofNat n) = true → safe (UInt8.ofNat n) = true := by
    decide +kernel
  have hb := hall b.toNat b.toNat_lt
  rw [UInt8.ofNat_toNat] at hb
  exact hb h

theorem escapeByte_safe {a b : UInt8} (h : b ∈ escapeByte a) : safe b = true := by
  have ha := a.toNat_lt
  unfold escapeByte at h
  split at h
  · rw [List.mem_singleton.mp h]
    exact safe_of_unescaped ‹_›
  · simp only [List.mem_cons, List.not_mem_nil, or_false] at h
    obtain rfl | rfl | rfl := h
    · decide
    · exact (hexUpper_spec _ (by omega)).2
    · exact (hexUpper_spec _ (by omega)).2

theorem hexPair_hexUpper (b : UInt8) (t : List UInt8) :
    hexPair (hexUpper (b.toNat / 16) :: hexUpper (b.toNat % 16) :: t) = some b := by
  have hb := b.toNat_lt
  have hval : b.toNat / 16 * 16 + b.toNat % 16 = b.toNat := Nat.div_add_mod' _ _
  simp only [hexPair, (hexUpper_spec (b.toNat / 16) (by omega)).1,
    (hexUpper_spec (b.toNat % 16) (by omega)).1, Option.bind_eq_bind, Option.bind_some, hval,
    UInt8.ofNat_toNat]

theorem component_safe (s : JsString) : ∀ b ∈ component s, safe b = true := by
  intro b hb
  obtain ⟨a, -, hb⟩ := List.mem_flatMap.mp hb
  exact escapeByte_safe hb

/-- A unit that separates is not in a component. -/
theorem not_mem_component (s : JsString) {b : UInt8} (hb : safe b = false) : b ∉ component s := by
  intro h
  rw [component_safe s b h] at hb
  cases hb

/-! ## What is read back -/

theorem decodeFrom_escapeByte (b : UInt8) (t : List UInt8) :
    decodeFrom 0 (escapeByte b ++ t) = b :: decodeFrom 0 t := by
  unfold escapeByte
  split
  · rename_i hb
    have hne : b ≠ 37 := by
      rintro rfl
      revert hb
      decide
    simp [decodeFrom, hne]
  · simp [decodeFrom, hexPair_hexUpper]

theorem decodeFrom_escapes (bs : List UInt8) : decodeFrom 0 (bs.flatMap escapeByte) = bs := by
  induction bs with
  | nil => rfl
  | cons b bs ih => rw [List.flatMap_cons, decodeFrom_escapeByte, ih]

theorem component_read {s : JsString} (h : JsString.isWellFormed s = true) :
    decodeComponent (component s) = s := by
  have hplus : (component s).map (fun b => if b = 43 then 32 else b) = component s := by
    refine (List.map_congr_left fun b hb => ?_).trans (List.map_id _)
    have hne : b ≠ 43 := fun heq => not_mem_component s (b := 43) (by decide) (heq ▸ hb)
    exact if_neg hne
  rw [decodeComponent, hplus, component, decodeFrom_escapes, JsString.encode,
    JsString.utf8Decode_chars, JsString.ofChars_toChars h]

/-- The pair of the texts `n` and `v`. -/
def pairText (n v : JsString) : List UInt8 := component n ++ 61 :: component v

theorem decodePair_pairText {n v : JsString} (hn : JsString.isWellFormed n = true)
    (hv : JsString.isWellFormed v = true) : decodePair (pairText n v) = (n, v) := by
  have hname : ∀ b ∈ component n, decide (b ≠ 61) = true := fun b hb =>
    decide_eq_true fun h => not_mem_component n (b := 61) (by decide) (h ▸ hb)
  rw [decodePair, pairText, List.takeWhile_append_of_pos hname, List.dropWhile_append_of_pos hname]
  simp [component_read hn, component_read hv]

/-- **A form of any texts is read as those texts.** -/
theorem parse_pairs {ps : List (JsString × JsString)}
    (hwf : ∀ p ∈ ps, JsString.isWellFormed p.1 = true ∧ JsString.isWellFormed p.2 = true) (hne : ps ≠ []) :
    parse ([38].intercalate (ps.map fun p => pairText p.1 p.2)) = ps := by
  have hsplit : ∀ l ∈ ps.map (fun p => pairText p.1 p.2), (38 : UInt8) ∉ l := by
    intro l hl
    obtain ⟨p, -, rfl⟩ := List.mem_map.mp hl
    simp [pairText, not_mem_component _ (show safe 38 = false by decide)]
  have hfull : ∀ l ∈ ps.map (fun p => pairText p.1 p.2), decide (l ≠ []) = true := by
    intro l hl
    obtain ⟨p, -, rfl⟩ := List.mem_map.mp hl
    simp [pairText]
  rw [parse, List.splitOn_intercalate 38 hsplit (by simpa using hne), List.filter_eq_self.mpr hfull,
    List.map_map]
  exact (List.map_congr_left fun p hp => decodePair_pairText (hwf p hp).1 (hwf p hp).2).trans
    (List.map_id _)

/-! ## Which texts a form has -/

theorem isWellFormed_ofChars (cs : List Char) : JsString.isWellFormed (JsString.ofChars cs) = true := by
  simp [JsString.isWellFormed, JsString.codePoints_ofChars]

theorem isWellFormed_of_getFirst {s name v : JsString} (h : getFirst (searchParams s) name = some v) :
    JsString.isWellFormed v = true := by
  obtain ⟨p, hp, rfl⟩ := Option.map_eq_some_iff.mp h
  obtain ⟨bs, -, rfl⟩ := List.mem_map.mp (List.mem_of_find?_eq_some hp)
  exact isWellFormed_ofChars _

end Lib.UrlForm
