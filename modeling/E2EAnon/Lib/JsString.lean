import Mathlib.Data.List.Basic

/-!
# JavaScript strings and their UTF-8

A JavaScript string is a list of UTF-16 code units. `encode` and `decode` are `TextEncoder.encode`
and `TextDecoder.decode` with their default options: a lone surrogate is encoded as U+FFFD,
ill-formed bytes are decoded to U+FFFD, and one U+FEFF in front is dropped (`ignoreBOM` is false).
-/

namespace Lib

abbrev JsString := List UInt16

namespace JsString

/-! ## Code points -/

inductive CodePoint
  | scalar (c : Char)
  | lone (u : UInt16)
deriving DecidableEq, Repr

def isHigh (u : UInt16) : Bool := 0xD800 ≤ u.toNat && u.toNat ≤ 0xDBFF

def isLow (u : UInt16) : Bool := 0xDC00 ≤ u.toNat && u.toNat ≤ 0xDFFF

def unitPoint (u : UInt16) : CodePoint :=
  if isHigh u || isLow u then .lone u else .scalar (Char.ofNat u.toNat)

def pairPoint (hi lo : UInt16) : CodePoint :=
  .scalar (Char.ofNat (0x10000 + (hi.toNat - 0xD800) * 0x400 + (lo.toNat - 0xDC00)))

/-- `String.prototype[Symbol.iterator]`. -/
def codePoints : JsString → List CodePoint
  | [] => []
  | [u] => [unitPoint u]
  | u :: v :: s =>
    if isHigh u && isLow v then pairPoint u v :: codePoints s else unitPoint u :: codePoints (v :: s)

/-- The UTF-16 of a scalar value. -/
def charUnits (c : Char) : JsString :=
  if c.toNat < 0x10000 then [UInt16.ofNat c.toNat]
  else [UInt16.ofNat (0xD800 + (c.toNat - 0x10000) / 0x400),
    UInt16.ofNat (0xDC00 + (c.toNat - 0x10000) % 0x400)]

def CodePoint.units : CodePoint → JsString
  | .scalar c => charUnits c
  | .lone u => [u]

def ofChars (cs : List Char) : JsString := cs.flatMap charUnits

/-- A Lean literal as a JavaScript string. -/
def lit (s : String) : JsString := ofChars s.toList

theorem toNat_ofNat_char {n : Nat} (h : n.isValidChar) : (Char.ofNat n).toNat = n := by
  have haux : Char.ofNat n = Char.ofNatAux n h := dif_pos h
  rw [haux]
  exact UInt32.toNat_ofNatLT

theorem toNat_range (c : Char) : c.toNat < 0xD800 ∨ 0xDFFF < c.toNat ∧ c.toNat < 0x110000 := c.valid

theorem units_unitPoint (u : UInt16) : (unitPoint u).units = [u] := by
  have hu := u.toNat_lt
  unfold unitPoint
  split
  · rfl
  · rename_i h
    simp only [isHigh, isLow, Bool.or_eq_true, Bool.and_eq_true, decide_eq_true_eq] at h
    have hval : u.toNat.isValidChar := by
      unfold Nat.isValidChar
      omega
    simp only [CodePoint.units, charUnits, toNat_ofNat_char hval, UInt16.ofNat_toNat]
    exact if_pos hu

theorem units_pairPoint {u v : UInt16} (hu : isHigh u = true) (hv : isLow v = true) :
    (pairPoint u v).units = [u, v] := by
  simp only [isHigh, isLow, Bool.and_eq_true, decide_eq_true_eq] at hu hv
  have hval : (0x10000 + (u.toNat - 0xD800) * 0x400 + (v.toNat - 0xDC00)).isValidChar := by
    unfold Nat.isValidChar
    omega
  have hhi : 0xD800 + (0x10000 + (u.toNat - 0xD800) * 0x400 + (v.toNat - 0xDC00) - 0x10000) / 0x400
      = u.toNat := by omega
  have hlo : 0xDC00 + (0x10000 + (u.toNat - 0xD800) * 0x400 + (v.toNat - 0xDC00) - 0x10000) % 0x400
      = v.toNat := by omega
  have hbig : ¬ 0x10000 + (u.toNat - 0xD800) * 0x400 + (v.toNat - 0xDC00) < 0x10000 := by omega
  simp only [pairPoint, CodePoint.units, charUnits, toNat_ofNat_char hval, hhi, hlo, hbig, if_false,
    UInt16.ofNat_toNat]

/-- The code points of a string spell it. -/
theorem flatMap_codePoints (s : JsString) : (codePoints s).flatMap CodePoint.units = s := by
  fun_induction codePoints s with
  | case1 => rfl
  | case2 u => simp [units_unitPoint]
  | case3 u v s h ih =>
    have h : isHigh u = true ∧ isLow v = true := by simpa using h
    rw [List.flatMap_cons, ih, units_pairPoint h.1 h.2]
    rfl
  | case4 u v s h ih =>
    rw [List.flatMap_cons, ih, units_unitPoint]
    rfl

/-! ## Scalar values -/

def replacement : Char := Char.ofNat 0xFFFD

def bom : Char := Char.ofNat 0xFEFF

/-- The conversion to a `USVString`. -/
def CodePoint.toChar : CodePoint → Char
  | .scalar c => c
  | .lone _ => replacement

def toChars (s : JsString) : List Char := (codePoints s).map CodePoint.toChar

/-- `String.prototype.isWellFormed`. -/
def isWellFormed (s : JsString) : Bool := (codePoints s).all fun
  | .scalar _ => true
  | .lone _ => false

theorem ofChars_toChars {s : JsString} (h : isWellFormed s = true) : ofChars (toChars s) = s := by
  have hunits : ∀ p ∈ codePoints s, charUnits p.toChar = p.units := by
    intro p hp
    have hp := List.all_eq_true.mp h p hp
    cases p with
    | scalar c => rfl
    | lone u => simp at hp
  calc ofChars (toChars s)
      = (codePoints s).flatMap fun p => charUnits p.toChar := by
        rw [ofChars, toChars, List.flatMap_map]
    _ = (codePoints s).flatMap CodePoint.units := List.flatMap_congr hunits
    _ = s := flatMap_codePoints s

theorem codePoints_charUnits (c : Char) (s : JsString) :
    codePoints (charUnits c ++ s) = .scalar c :: codePoints s := by
  have hrange := toNat_range c
  have hunit : ∀ {n}, n < 0x10000 → (UInt16.ofNat n).toNat = n := UInt16.toNat_ofNat_of_lt'
  unfold charUnits
  split
  · rename_i h
    have hhigh : isHigh (UInt16.ofNat c.toNat) = false := by
      simp only [isHigh, hunit h, Bool.and_eq_false_iff, decide_eq_false_iff_not]
      omega
    have hlow : isLow (UInt16.ofNat c.toNat) = false := by
      simp only [isLow, hunit h, Bool.and_eq_false_iff, decide_eq_false_iff_not]
      omega
    have hpoint : unitPoint (UInt16.ofNat c.toNat) = .scalar c := by
      simp [unitPoint, hhigh, hlow, hunit h]
    cases s with
    | nil => simp [codePoints, hpoint]
    | cons v s => simp [codePoints, hhigh, hpoint]
  · rename_i h
    have hhi : (UInt16.ofNat (0xD800 + (c.toNat - 0x10000) / 0x400)).toNat =
        0xD800 + (c.toNat - 0x10000) / 0x400 := hunit (by omega)
    have hlo : (UInt16.ofNat (0xDC00 + (c.toNat - 0x10000) % 0x400)).toNat =
        0xDC00 + (c.toNat - 0x10000) % 0x400 := hunit (by omega)
    have hhigh : isHigh (UInt16.ofNat (0xD800 + (c.toNat - 0x10000) / 0x400)) = true := by
      simp only [isHigh, hhi, Bool.and_eq_true, decide_eq_true_eq]
      omega
    have hlow : isLow (UInt16.ofNat (0xDC00 + (c.toNat - 0x10000) % 0x400)) = true := by
      simp only [isLow, hlo, Bool.and_eq_true, decide_eq_true_eq]
      omega
    have hval : 0x10000 + (0xD800 + (c.toNat - 0x10000) / 0x400 - 0xD800) * 0x400 +
        (0xDC00 + (c.toNat - 0x10000) % 0x400 - 0xDC00) = c.toNat := by omega
    simp only [List.cons_append, List.nil_append, codePoints, hhigh, hlow, Bool.and_self, if_true,
      pairPoint, hhi, hlo, hval, Char.ofNat_toNat]

theorem codePoints_ofChars (cs : List Char) : codePoints (ofChars cs) = cs.map .scalar := by
  induction cs with
  | nil => rfl
  | cons c cs ih =>
    rw [ofChars, List.flatMap_cons, codePoints_charUnits, List.map_cons]
    exact congrArg _ ih

theorem toChars_ofChars (cs : List Char) : toChars (ofChars cs) = cs := by
  rw [toChars, codePoints_ofChars, List.map_map]
  exact List.map_id cs

/-! ## UTF-8 -/

/-- `TextEncoder.encode`. -/
def encode (s : JsString) : List UInt8 := (toChars s).flatMap String.utf8EncodeChar

/-- The UTF-8 decoder between two bytes: the code point so far, the bytes still to come, and the
range the next one must be in. -/
structure Utf8 where
  codePoint : Nat := 0
  needed    : Nat := 0
  lower     : Nat := 0x80
  upper     : Nat := 0xBF

/-- The first byte of a sequence: what the decoder gives out at once, and its next state. -/
def lead (b : Nat) : List Char × Utf8 :=
  if b ≤ 0x7F then ([Char.ofNat b], {})
  else if 0xC2 ≤ b ∧ b ≤ 0xDF then ([], { codePoint := b % 0x20, needed := 1 })
  else if 0xE0 ≤ b ∧ b ≤ 0xEF then
    ([], { codePoint := b % 0x10, needed := 2, lower := if b = 0xE0 then 0xA0 else 0x80,
           upper := if b = 0xED then 0x9F else 0xBF })
  else if 0xF0 ≤ b ∧ b ≤ 0xF4 then
    ([], { codePoint := b % 0x08, needed := 3, lower := if b = 0xF0 then 0x90 else 0x80,
           upper := if b = 0xF4 then 0x8F else 0xBF })
  else ([replacement], {})

/-- The UTF-8 decoder from a state on. -/
def utf8Decode : Utf8 → List UInt8 → List Char
  | st, [] => if st.needed = 0 then [] else [replacement]
  | st, b :: bs =>
    if st.needed = 0 then (lead b.toNat).1 ++ utf8Decode (lead b.toNat).2 bs
    else if st.lower ≤ b.toNat ∧ b.toNat ≤ st.upper then
      if st.needed = 1 then Char.ofNat (st.codePoint * 0x40 + b.toNat % 0x40) :: utf8Decode {} bs
      else utf8Decode { codePoint := st.codePoint * 0x40 + b.toNat % 0x40, needed := st.needed - 1 } bs
    -- the byte starts the next sequence
    else replacement :: ((lead b.toNat).1 ++ utf8Decode (lead b.toNat).2 bs)

/-- `TextDecoder.decode`. -/
def decode (bs : List UInt8) : JsString :=
  match utf8Decode {} bs with
  | [] => []
  | c :: cs => if c = bom then ofChars cs else ofChars (c :: cs)

theorem utf8Decode_start (b : UInt8) (bs : List UInt8) :
    utf8Decode {} (b :: bs) = (lead b.toNat).1 ++ utf8Decode (lead b.toNat).2 bs := by
  simp [utf8Decode]

theorem utf8Decode_last {cp lo up : Nat} {b : UInt8} {bs : List UInt8} (hlo : lo ≤ b.toNat)
    (hup : b.toNat ≤ up) :
    utf8Decode { codePoint := cp, needed := 1, lower := lo, upper := up } (b :: bs) =
      Char.ofNat (cp * 0x40 + b.toNat % 0x40) :: utf8Decode {} bs := by
  simp [utf8Decode, hlo, hup]

theorem utf8Decode_next {cp n lo up : Nat} {b : UInt8} {bs : List UInt8} (hlo : lo ≤ b.toNat)
    (hup : b.toNat ≤ up) :
    utf8Decode { codePoint := cp, needed := n + 2, lower := lo, upper := up } (b :: bs) =
      utf8Decode { codePoint := cp * 0x40 + b.toNat % 0x40, needed := n + 1 } bs := by
  simp [utf8Decode, hlo, hup]

theorem lead_two {b : Nat} (h : 0xC2 ≤ b ∧ b ≤ 0xDF) :
    lead b = ([], { codePoint := b % 0x20, needed := 1 }) := by
  have h1 : ¬ b ≤ 0x7F := by omega
  simp [lead, h1, h]

theorem lead_three {b : Nat} (h : 0xE0 ≤ b ∧ b ≤ 0xEF) :
    lead b = ([], { codePoint := b % 0x10, needed := 2, lower := if b = 0xE0 then 0xA0 else 0x80,
                    upper := if b = 0xED then 0x9F else 0xBF }) := by
  have h1 : ¬ b ≤ 0x7F := by omega
  have h2 : ¬ b ≤ 0xDF := by omega
  simp [lead, h1, h2, h]

theorem lead_four {b : Nat} (h : 0xF0 ≤ b ∧ b ≤ 0xF4) :
    lead b = ([], { codePoint := b % 0x08, needed := 3, lower := if b = 0xF0 then 0x90 else 0x80,
                    upper := if b = 0xF4 then 0x8F else 0xBF }) := by
  have h1 : ¬ b ≤ 0x7F := by omega
  have h2 : ¬ b ≤ 0xDF := by omega
  have h3 : ¬ b ≤ 0xEF := by omega
  simp [lead, h1, h2, h3, h]

section
variable {a b c d : UInt8} (bs : List UInt8)

theorem utf8Decode_two (ha : 0xC2 ≤ a.toNat ∧ a.toNat ≤ 0xDF) (hb : 0x80 ≤ b.toNat ∧ b.toNat ≤ 0xBF) :
    utf8Decode {} (a :: b :: bs) =
      Char.ofNat (a.toNat % 0x20 * 0x40 + b.toNat % 0x40) :: utf8Decode {} bs := by
  rw [utf8Decode_start, lead_two ha, List.nil_append]
  exact utf8Decode_last hb.1 hb.2

theorem utf8Decode_three (ha : 0xE0 ≤ a.toNat ∧ a.toNat ≤ 0xEF)
    (hlo : (if a.toNat = 0xE0 then 0xA0 else 0x80) ≤ b.toNat)
    (hup : b.toNat ≤ if a.toNat = 0xED then 0x9F else 0xBF)
    (hc : 0x80 ≤ c.toNat ∧ c.toNat ≤ 0xBF) :
    utf8Decode {} (a :: b :: c :: bs) =
      Char.ofNat ((a.toNat % 0x10 * 0x40 + b.toNat % 0x40) * 0x40 + c.toNat % 0x40) ::
        utf8Decode {} bs := by
  rw [utf8Decode_start, lead_three ha, List.nil_append, utf8Decode_next hlo hup]
  exact utf8Decode_last hc.1 hc.2

theorem utf8Decode_four (ha : 0xF0 ≤ a.toNat ∧ a.toNat ≤ 0xF4)
    (hlo : (if a.toNat = 0xF0 then 0x90 else 0x80) ≤ b.toNat)
    (hup : b.toNat ≤ if a.toNat = 0xF4 then 0x8F else 0xBF)
    (hc : 0x80 ≤ c.toNat ∧ c.toNat ≤ 0xBF) (hd : 0x80 ≤ d.toNat ∧ d.toNat ≤ 0xBF) :
    utf8Decode {} (a :: b :: c :: d :: bs) =
      Char.ofNat (((a.toNat % 0x08 * 0x40 + b.toNat % 0x40) * 0x40 + c.toNat % 0x40) * 0x40 +
        d.toNat % 0x40) :: utf8Decode {} bs := by
  rw [utf8Decode_start, lead_four ha, List.nil_append, utf8Decode_next hlo hup,
    utf8Decode_next hc.1 hc.2]
  exact utf8Decode_last hd.1 hd.2

end

/-- One character is read back off what follows it. -/
theorem utf8Decode_char (c : Char) (bs : List UInt8) :
    utf8Decode {} (String.utf8EncodeChar c ++ bs) = c :: utf8Decode {} bs := by
  have hrange := toNat_range c
  have hbyte : ∀ n, n < 256 → (UInt8.ofNat n).toNat = n := fun n hn => UInt8.toNat_ofNat_of_lt' hn
  obtain ⟨n, hn⟩ : ∃ n, c.toNat = n := ⟨_, rfl⟩
  have hc : Char.ofNat n = c := hn ▸ Char.ofNat_toNat c
  rw [hn] at hrange
  have hval : c.val.toNat = n := hn
  -- the bytes that carry six bits
  have htail : ∀ m, (UInt8.ofNat (m % 0x40 + 0x80)).toNat = m % 0x40 + 0x80 :=
    fun m => hbyte _ (by omega)
  unfold String.utf8EncodeChar
  simp only [hval]
  split
  · rename_i h1
    have hb : (UInt8.ofNat n).toNat = n := hbyte n (by omega)
    simp only [List.cons_append, List.nil_append, utf8Decode_start, hb]
    simp [lead, h1, hc]
  · rename_i h1
    split
    · rename_i h2
      have hb : (UInt8.ofNat (n / 64 % 0x20 + 0xC0)).toNat = n / 64 % 0x20 + 0xC0 := hbyte _ (by omega)
      rw [List.cons_append, List.singleton_append, utf8Decode_two, hb, htail]
      · rw [show (n / 64 % 0x20 + 0xC0) % 0x20 * 0x40 + (n % 0x40 + 0x80) % 0x40 = n by omega, hc]
      · omega
      · rw [htail]
        omega
    · rename_i h2
      split
      · rename_i h3
        have hb : (UInt8.ofNat (n / 4096 % 0x10 + 0xE0)).toNat = n / 4096 % 0x10 + 0xE0 :=
          hbyte _ (by omega)
        rw [List.cons_append, List.cons_append, List.singleton_append, utf8Decode_three, hb, htail, htail]
        · rw [show ((n / 4096 % 0x10 + 0xE0) % 0x10 * 0x40 + (n / 64 % 0x40 + 0x80) % 0x40) * 0x40 +
            (n % 0x40 + 0x80) % 0x40 = n by omega, hc]
        · omega
        · rw [hb, htail]
          split <;> omega
        · rw [hb, htail]
          split <;> omega
        · rw [htail]
          omega
      · rename_i h3
        have hb : (UInt8.ofNat (n / 262144 % 0x08 + 0xF0)).toNat = n / 262144 % 0x08 + 0xF0 :=
          hbyte _ (by omega)
        rw [List.cons_append, List.cons_append, List.cons_append, List.singleton_append,
          utf8Decode_four, hb, htail, htail, htail]
        · rw [show (((n / 262144 % 0x08 + 0xF0) % 0x08 * 0x40 + (n / 4096 % 0x40 + 0x80) % 0x40) * 0x40
            + (n / 64 % 0x40 + 0x80) % 0x40) * 0x40 + (n % 0x40 + 0x80) % 0x40 = n by omega, hc]
        · omega
        · rw [hb, htail]
          split <;> omega
        · rw [hb, htail]
          split <;> omega
        · rw [htail]
          omega
        · rw [htail]
          omega

theorem utf8Decode_chars (cs : List Char) :
    utf8Decode {} (cs.flatMap String.utf8EncodeChar) = cs := by
  induction cs with
  | nil => rfl
  | cons c cs ih => rw [List.flatMap_cons, utf8Decode_char, ih]

/-- Two texts with the same bytes differ in lone surrogates at most. -/
theorem toChars_of_encode {s t : JsString} (h : encode s = encode t) : toChars s = toChars t := by
  rw [← utf8Decode_chars (toChars s), ← utf8Decode_chars (toChars t)]
  exact congrArg (utf8Decode {}) h

theorem encode_inj {s t : JsString} (hs : isWellFormed s = true) (ht : isWellFormed t = true)
    (h : encode s = encode t) : s = t := by
  rw [← ofChars_toChars hs, ← ofChars_toChars ht, toChars_of_encode h]

/-! ## What comes back -/

/-- The text without the mark `decode` drops. -/
def dropBom : JsString → JsString
  | [] => []
  | u :: s => if u = 0xFEFF then s else u :: s

theorem toNat_bom {c : Char} : c.toNat = 0xFEFF ↔ c = bom := by
  constructor
  · intro h
    rw [← Char.ofNat_toNat c, h, bom]
  · rintro rfl
    decide

theorem dropBom_charUnits (c : Char) (s : JsString) :
    dropBom (charUnits c ++ s) = if c = bom then s else charUnits c ++ s := by
  have hrange := toNat_range c
  have hunit : ∀ n, n < 0x10000 → (UInt16.ofNat n = 0xFEFF ↔ n = 0xFEFF) := by
    intro n hn
    rw [← UInt16.toNat_inj, UInt16.toNat_ofNat_of_lt' hn]
    exact Iff.rfl
  unfold charUnits
  split
  · rename_i h
    simp only [List.cons_append, List.nil_append, dropBom, hunit _ h, toNat_bom]
  · rename_i h
    -- a surrogate comes first
    have hne : ¬ 0xD800 + (c.toNat - 0x10000) / 0x400 = 0xFEFF := by omega
    have hbom : ¬ c = bom := by
      rw [← toNat_bom]
      omega
    simp only [List.cons_append, List.nil_append, dropBom, hunit _ (by omega : 0xD800 +
      (c.toNat - 0x10000) / 0x400 < 0x10000), hne, hbom, if_false]

/-- What a text that is encoded and decoded comes back as. -/
theorem decode_encode {s : JsString} (h : isWellFormed s = true) : decode (encode s) = dropBom s := by
  have hs := ofChars_toChars h
  unfold decode encode
  rw [utf8Decode_chars]
  cases hcs : toChars s with
  | nil =>
    rw [hcs] at hs
    exact hs ▸ rfl
  | cons c cs =>
    rw [hcs] at hs
    have hcons : ofChars (c :: cs) = charUnits c ++ ofChars cs := List.flatMap_cons
    simp only
    rw [← hs, hcons, dropBom_charUnits]

theorem dropBom_eq_self {s : JsString} : dropBom s = s ↔ s.head? ≠ some 0xFEFF := by
  cases s with
  | nil => simp [dropBom]
  | cons u s =>
    by_cases hu : u = 0xFEFF
    · simp [dropBom, hu]
    · simp [dropBom, hu]

/-! ## ASCII text -/

def IsAscii (s : JsString) : Prop := ∀ u ∈ s, u.toNat < 0x80

instance isAsciiDecidable (s : JsString) : Decidable (IsAscii s) :=
  List.decidableBAll (fun u : UInt16 => u.toNat < 0x80) s

variable {s t : JsString} {u : UInt16}

theorem IsAscii.append (hs : IsAscii s) (ht : IsAscii t) : IsAscii (s ++ t) := by
  intro u hu
  cases List.mem_append.mp hu with
  | inl hu => exact hs u hu
  | inr hu => exact ht u hu

theorem IsAscii.cons (hu : u.toNat < 0x80) (hs : IsAscii s) : IsAscii (u :: s) :=
  List.forall_mem_cons.mpr ⟨hu, hs⟩

/-- A pair of surrogates does not reach over a unit that is not a low one. -/
theorem codePoints_append (s t : JsString) (hu : isLow u = false) :
    codePoints (s ++ u :: t) = codePoints s ++ codePoints (u :: t) := by
  fun_induction codePoints s with
  | case1 => rfl
  | case2 v => simp [codePoints, hu]
  | case3 v w s h ih => simpa [codePoints, h] using ih
  | case4 v w s h ih => simpa [codePoints, h] using ih

theorem encode_append (s t : JsString) (hu : isLow u = false) :
    encode (s ++ u :: t) = encode s ++ encode (u :: t) := by
  simp only [encode, toChars, codePoints_append s t hu, List.map_append, List.flatMap_append]

theorem unitPoint_ascii (hu : u.toNat < 0x80) : unitPoint u = .scalar (Char.ofNat u.toNat) := by
  have hlow : ¬ 0xD800 ≤ u.toNat := by omega
  have hhigh : ¬ 0xDC00 ≤ u.toNat := by omega
  simp [unitPoint, isHigh, isLow, hlow, hhigh]

theorem codePoints_cons (hu : u.toNat < 0x80) (s : JsString) :
    codePoints (u :: s) = .scalar (Char.ofNat u.toNat) :: codePoints s := by
  have hlow : ¬ 0xD800 ≤ u.toNat := by omega
  cases s with
  | nil => simp [codePoints, unitPoint_ascii hu]
  | cons v s => simp [codePoints, unitPoint_ascii hu, isHigh, hlow]

theorem codePoints_ascii (h : IsAscii s) :
    codePoints s = s.map fun u => .scalar (Char.ofNat u.toNat) := by
  induction s with
  | nil => rfl
  | cons u s ih =>
    obtain ⟨hu, hs⟩ := List.forall_mem_cons.mp h
    rw [codePoints_cons hu, ih hs, List.map_cons]

theorem codePoints_ascii_append (h : IsAscii s) (t : JsString) :
    codePoints (s ++ t) = codePoints s ++ codePoints t := by
  induction s with
  | nil => rfl
  | cons u s ih =>
    obtain ⟨hu, hs⟩ := List.forall_mem_cons.mp h
    rw [List.cons_append, codePoints_cons hu, codePoints_cons hu, ih hs, List.cons_append]

theorem encode_ascii_append (h : IsAscii s) (t : JsString) :
    encode (s ++ t) = encode s ++ encode t := by
  simp only [encode, toChars, codePoints_ascii_append h, List.map_append, List.flatMap_append]

theorem isWellFormed_ascii (h : IsAscii s) : isWellFormed s = true := by
  simp [isWellFormed, codePoints_ascii h]

theorem utf8EncodeChar_ascii (hu : u.toNat < 0x80) :
    String.utf8EncodeChar (Char.ofNat u.toNat) = [UInt8.ofNat u.toNat] := by
  have hn : (Char.ofNat u.toNat).val.toNat = u.toNat := toNat_ofNat_char (Or.inl (by omega))
  unfold String.utf8EncodeChar
  simp only [hn]
  exact if_pos (by omega)

/-- A byte for a unit. -/
theorem encode_ascii (h : IsAscii s) : encode s = s.map fun u => UInt8.ofNat u.toNat := by
  rw [encode, toChars, codePoints_ascii h, List.map_map, List.flatMap_map]
  exact (List.flatMap_congr fun u hu => utf8EncodeChar_ascii (h u hu)).trans
    List.map_eq_flatMap.symm

theorem length_encode_ascii (h : IsAscii s) : (encode s).length = s.length := by
  rw [encode_ascii h, List.length_map]

theorem decode_encode_ascii (h : IsAscii s) : decode (encode s) = s := by
  rw [decode_encode (isWellFormed_ascii h), dropBom_eq_self]
  intro hhead
  have hu := h _ (List.mem_of_mem_head? hhead)
  simp at hu

/-! ## Array indices -/

/-- The number of which the text is the decimal form, below 2^32 - 1. -/
def arrayIndex (s : JsString) : Option Nat :=
  let n := s.foldl (fun n u => 10 * n + (u.toNat - 48)) 0
  if (s ≠ [] ∧ s.all fun u => 48 ≤ u.toNat && u.toNat ≤ 57) ∧ (s.head? = some 48 → s = [48]) ∧
    n < 0xFFFFFFFF then some n else none

example : arrayIndex (lit "10") = some 10 ∧ arrayIndex (lit "010") = none := by decide +kernel

/-! ## Sizes -/

/-- The bytes of a text. -/
def size (s : JsString) : Nat := (encode s).length

theorem size_append (s t : JsString) (hu : isLow u = false) :
    size (s ++ u :: t) = size s + size (u :: t) := by
  rw [size, encode_append s t hu, List.length_append, size, size]

theorem size_ascii (h : IsAscii s) : size s = s.length := length_encode_ascii h

theorem size_cons (hu : u.toNat < 0x80) (t : JsString) : size (u :: t) = 1 + size t := by
  simp only [size, encode, toChars, codePoints_cons hu, List.map_cons, CodePoint.toChar,
    List.flatMap_cons, utf8EncodeChar_ascii hu, List.singleton_append, List.length_cons, Nat.add_comm]

end JsString
end Lib
