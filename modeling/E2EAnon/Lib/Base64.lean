import E2EAnon.Lib.JsString

/-!
# Base64: `btoa` and `atob`

`encode` pads to a multiple of 4. `decode` is the forgiving decoder of the web: white space is
skipped, padding may be there or not, and bits left over are dropped. `btoa` and `atob` are the two
on strings whose units stand for bytes; `none` is an `InvalidCharacterError`.
-/

namespace Lib.Base64

/-! ## The alphabet -/

/-- `=`. -/
def pad : UInt16 := 61

def digit (n : Nat) : UInt16 :=
  if n < 26 then UInt16.ofNat (65 + n)
  else if n < 52 then UInt16.ofNat (97 + (n - 26))
  else if n < 62 then UInt16.ofNat (48 + (n - 52))
  else if n = 62 then 43
  else 47

def value (u : UInt16) : Option Nat :=
  let n := u.toNat
  if 65 ≤ n ∧ n ≤ 90 then some (n - 65)
  else if 97 ≤ n ∧ n ≤ 122 then some (n - 97 + 26)
  else if 48 ≤ n ∧ n ≤ 57 then some (n - 48 + 52)
  else if n = 43 then some 62
  else if n = 47 then some 63
  else none

/-- ASCII white space. -/
def isSpace (u : UInt16) : Bool := u = 9 || u = 10 || u = 12 || u = 13 || u = 32

/-- What a digit can be. -/
theorem digit_spec : ∀ n < 64, value (digit n) = some n ∧ digit n ≠ pad ∧
    isSpace (digit n) = false ∧ (digit n).toNat < 0x80 ∧ 0x22 < (digit n).toNat ∧ digit n ≠ 92 := by
  decide

/-! ## Bytes and groups of 6 bits -/

def sextets : List UInt8 → List Nat
  | [] => []
  | [a] => [a.toNat / 4, a.toNat % 4 * 16]
  | [a, b] => [a.toNat / 4, a.toNat % 4 * 16 + b.toNat / 16, b.toNat % 16 * 4]
  | a :: b :: c :: bs =>
    a.toNat / 4 :: (a.toNat % 4 * 16 + b.toNat / 16) :: (b.toNat % 16 * 4 + c.toNat / 64) ::
      c.toNat % 64 :: sextets bs

/-- The bytes of the groups; a last group of 2 or 3 leaves bits over. -/
def unpack : List Nat → List UInt8
  | x :: y :: z :: w :: xs =>
    UInt8.ofNat (x * 4 + y / 16) :: UInt8.ofNat (y % 16 * 16 + z / 4) ::
      UInt8.ofNat (z % 4 * 64 + w) :: unpack xs
  | [x, y, z] => [UInt8.ofNat (x * 4 + y / 16), UInt8.ofNat (y % 16 * 16 + z / 4)]
  | [x, y] => [UInt8.ofNat (x * 4 + y / 16)]
  | _ => []

theorem sextets_lt (bs : List UInt8) : ∀ n ∈ sextets bs, n < 64 := by
  fun_induction sextets bs with
  | case1 => simp
  | case2 a =>
    have ha := a.toNat_lt
    simp only [List.forall_mem_cons, List.not_mem_nil, false_implies, implies_true, and_true]
    omega
  | case3 a b =>
    have ha := a.toNat_lt
    have hb := b.toNat_lt
    simp only [List.forall_mem_cons, List.not_mem_nil, false_implies, implies_true, and_true]
    omega
  | case4 a b c bs ih =>
    have ha := a.toNat_lt
    have hb := b.toNat_lt
    have hc := c.toNat_lt
    simp only [List.forall_mem_cons]
    refine ⟨?_, ?_, ?_, ?_, ih⟩ <;> omega

theorem length_sextets (bs : List UInt8) : (sextets bs).length = (4 * bs.length + 2) / 3 := by
  fun_induction sextets bs with
  | case1 => rfl
  | case2 a => simp
  | case3 a b => simp
  | case4 a b c bs ih =>
    simp only [List.length_cons, ih]
    omega

theorem unpack_sextets (bs : List UInt8) : unpack (sextets bs) = bs := by
  fun_induction sextets bs with
  | case1 => rfl
  | case2 a =>
    have ha : a.toNat / 4 * 4 + a.toNat % 4 * 16 / 16 = a.toNat := by omega
    simp only [unpack, ha, UInt8.ofNat_toNat]
  | case3 a b =>
    have hb := b.toNat_lt
    have ha : a.toNat / 4 * 4 + (a.toNat % 4 * 16 + b.toNat / 16) / 16 = a.toNat := by omega
    have hb : (a.toNat % 4 * 16 + b.toNat / 16) % 16 * 16 + b.toNat % 16 * 4 / 4 = b.toNat := by omega
    simp only [unpack, ha, hb, UInt8.ofNat_toNat]
  | case4 a b c bs ih =>
    have hb := b.toNat_lt
    have hc := c.toNat_lt
    have ha : a.toNat / 4 * 4 + (a.toNat % 4 * 16 + b.toNat / 16) / 16 = a.toNat := by omega
    have hb : (a.toNat % 4 * 16 + b.toNat / 16) % 16 * 16 + (b.toNat % 16 * 4 + c.toNat / 64) / 4 =
        b.toNat := by omega
    have hc : (b.toNat % 16 * 4 + c.toNat / 64) % 4 * 64 + c.toNat % 64 = c.toNat := by omega
    simp only [unpack, ha, hb, hc, UInt8.ofNat_toNat, ih]

/-! ## The codec -/

/-- The digits without padding. -/
def digits (bs : List UInt8) : JsString := (sextets bs).map digit

def encode (bs : List UInt8) : JsString :=
  digits bs ++ List.replicate ((3 - bs.length % 3) % 3) pad

/-- One or two `=` at the end are taken off a text of a length divisible by 4. -/
def unpad (s : JsString) : JsString :=
  if s.length % 4 = 0 ∧ s.getLast? = some pad then
    if s.dropLast.getLast? = some pad then s.dropLast.dropLast else s.dropLast
  else s

def decode (s : JsString) : Option (List UInt8) :=
  let t := unpad (s.filter fun u => !isSpace u)
  if t.length % 4 = 1 then none else (t.mapM value).map unpack

def btoa (s : JsString) : Option JsString :=
  if s.all (·.toNat < 0x100) then some (encode (s.map fun u => UInt8.ofNat u.toNat)) else none

def atob (s : JsString) : Option JsString := (decode s).map (·.map fun b => UInt16.ofNat b.toNat)

variable {bs : List UInt8} {u : UInt16}

theorem mem_digits (h : u ∈ digits bs) : ∃ n < 64, digit n = u := by
  obtain ⟨n, hn, rfl⟩ := List.mem_map.mp h
  exact ⟨n, sextets_lt bs n hn, rfl⟩

theorem length_digits (bs : List UInt8) : (digits bs).length = (4 * bs.length + 2) / 3 := by
  rw [digits, List.length_map, length_sextets]

theorem length_encode (bs : List UInt8) : (encode bs).length = 4 * ((bs.length + 2) / 3) := by
  rw [encode, List.length_append, length_digits, List.length_replicate]
  omega

/-- The units of `encode`. -/
theorem mem_encode (h : u ∈ encode bs) : (∃ n < 64, digit n = u) ∨ u = pad := by
  cases List.mem_append.mp h with
  | inl h => exact Or.inl (mem_digits h)
  | inr h => exact Or.inr (List.eq_of_mem_replicate h)

theorem mapM_value_digits (bs : List UInt8) : (digits bs).mapM value = some (sextets bs) := by
  have hread : ∀ ns : List Nat, (∀ n ∈ ns, n < 64) → (ns.map digit).mapM value = some ns := by
    intro ns hlt
    induction ns with
    | nil => rfl
    | cons n ns ih =>
      obtain ⟨hn, hns⟩ := List.forall_mem_cons.mp hlt
      rw [List.map_cons, List.mapM_cons, (digit_spec n hn).1, ih hns]
      rfl
  exact hread _ (sextets_lt bs)

/-- Padding that completes the last group is taken off. -/
theorem unpad_digits (bs : List UInt8) {p : Nat} (hp : p ≤ 2)
    (hlen : p = 0 ∨ ((digits bs).length + p) % 4 = 0) :
    unpad (digits bs ++ List.replicate p pad) = digits bs := by
  have hlast : (digits bs).getLast? ≠ some pad := by
    intro h
    obtain ⟨n, hn, hpad⟩ := mem_digits (List.mem_of_getLast? h)
    exact (digit_spec n hn).2.1 hpad
  have hdrop : ∀ s : JsString, (s ++ [pad]).dropLast = s := fun s => List.dropLast_concat
  match p with
  | 0 => simp [unpad, hlast]
  | 1 =>
    have hlen : ((digits bs).length + 1) % 4 = 0 := by omega
    simp [unpad, hlast, hlen]
  | 2 =>
    have hlen : ((digits bs).length + 2) % 4 = 0 := by omega
    have htwo : digits bs ++ List.replicate 2 pad = (digits bs ++ [pad]) ++ [pad] := by simp
    rw [htwo, unpad, if_pos ⟨by simpa using hlen, by simp⟩, hdrop, if_pos (by simp), hdrop]

/-- **Digits are read with the padding they lack, or any that completes the last group.** -/
theorem decode_digits (bs : List UInt8) {p : Nat} (hp : p ≤ 2)
    (hlen : p = 0 ∨ ((digits bs).length + p) % 4 = 0) :
    decode (digits bs ++ List.replicate p pad) = some bs := by
  have hspace : (digits bs ++ List.replicate p pad).filter (fun u => !isSpace u) =
      digits bs ++ List.replicate p pad := by
    refine List.filter_eq_self.mpr fun u hu => ?_
    cases List.mem_append.mp hu with
    | inl hu =>
      obtain ⟨n, hn, rfl⟩ := mem_digits hu
      simp [(digit_spec n hn).2.2.1]
    | inr hu =>
      rw [(List.mem_replicate.mp hu).2]
      decide
  have hodd : ¬ (digits bs).length % 4 = 1 := by
    rw [length_digits]
    omega
  simp only [decode, hspace, unpad_digits bs hp hlen, hodd, if_false, mapM_value_digits,
    Option.map_some, unpack_sextets]

theorem decode_encode (bs : List UInt8) : decode (encode bs) = some bs := by
  refine decode_digits bs (by omega) (Or.inr ?_)
  have hmod : bs.length % 3 = 0 ∨ bs.length % 3 = 1 ∨ bs.length % 3 = 2 := by omega
  rw [length_digits]
  obtain h | h | h := hmod
  · rw [h]; omega
  · rw [h]; omega
  · rw [h]; omega

end Lib.Base64
