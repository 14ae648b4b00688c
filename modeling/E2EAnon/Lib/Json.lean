import Mathlib.Algebra.Ring.Nat
import E2EAnon.Lib.JsString

/-!
# JSON texts

`parse` is `JSON.parse`: it reads a text unit by unit, with the containers that are open on a stack.
A number is kept as its text. `stringify` is `JSON.stringify` of an object of strings and natural
numbers.
-/

namespace Lib

inductive Json
  | null
  | bool (b : Bool)
  | num (text : JsString)
  | str (s : JsString)
  | arr (xs : List Json)
  /-- The members as they stand in the text. -/
  | obj (kvs : List (JsString × Json))

namespace Json

/-! ## The units with a meaning -/

def dquote : UInt16 := 34
def comma : UInt16 := 44
def minus : UInt16 := 45
def dot : UInt16 := 46
def colon : UInt16 := 58
def lbracket : UInt16 := 91
def backslash : UInt16 := 92
def rbracket : UInt16 := 93
def lbrace : UInt16 := 123
def rbrace : UInt16 := 125

def isSpace (u : UInt16) : Bool := u = 9 || u = 10 || u = 13 || u = 32

def isDigit (u : UInt16) : Bool := 48 ≤ u.toNat && u.toNat ≤ 57

/-! ## Numbers -/

/-- How far into a number the reader is. -/
inductive Num
  | sign | zero | int | dot | frac | exp | expSign | expInt
deriving DecidableEq, Repr

def Num.complete : Num → Bool
  | .zero | .int | .frac | .expInt => true
  | .sign | .dot | .exp | .expSign => false

/-- `e` or `E`. -/
def isExp (u : UInt16) : Bool := u = 69 || u = 101

def Num.next (n : Num) (u : UInt16) : Option Num :=
  match n with
  | .sign => if u = 48 then some .zero else if isDigit u then some .int else none
  | .zero => if u = Json.dot then some .dot else if isExp u then some .exp else none
  | .int =>
    if isDigit u then some .int else if u = Json.dot then some .dot
    else if isExp u then some .exp else none
  | .dot => if isDigit u then some .frac else none
  | .frac => if isDigit u then some .frac else if isExp u then some .exp else none
  | .exp =>
    if u = 43 || u = minus then some .expSign else if isDigit u then some .expInt else none
  | .expSign | .expInt => if isDigit u then some .expInt else none

/-! ## Strings -/

/-- Where in an escape sequence the reader is; `hex` has the digits it still needs and the value of
those it has. -/
inductive Esc
  | no
  | slash
  | hex (needed acc : Nat)
deriving DecidableEq, Repr

def hexValue (u : UInt16) : Option Nat :=
  let n := u.toNat
  if 48 ≤ n ∧ n ≤ 57 then some (n - 48)
  else if 65 ≤ n ∧ n ≤ 70 then some (n - 55)
  else if 97 ≤ n ∧ n ≤ 102 then some (n - 87)
  else none

/-- The unit a short escape stands for. -/
def escaped (u : UInt16) : Option UInt16 :=
  if u = dquote ∨ u = backslash ∨ u = 47 then some u
  else if u = 98 then some 8
  else if u = 102 then some 12
  else if u = 110 then some 10
  else if u = 114 then some 13
  else if u = 116 then some 9
  else none

/-- A string after one more unit: its units so far, the last first, or all of it. -/
inductive Scan
  | more (rev : JsString) (esc : Esc)
  | closed (s : JsString)

def scan (rev : JsString) (u : UInt16) : Esc → Option Scan
  | .no =>
    if u = dquote then some (.closed rev.reverse)
    else if u = backslash then some (.more rev .slash)
    else if u.toNat < 0x20 then none
    else some (.more (u :: rev) .no)
  | .slash =>
    if u = 117 then some (.more rev (.hex 4 0))
    else (escaped u).map fun v => .more (v :: rev) .no
  | .hex needed acc =>
    (hexValue u).map fun d =>
      if needed = 1 then .more (UInt16.ofNat (acc * 16 + d) :: rev) .no
      else .more rev (.hex (needed - 1) (acc * 16 + d))

/-! ## The reader -/

/-- A container that is open: what it has so far, the last first. -/
inductive Frame
  | arr (rev : List Json)
  | obj (rev : List (JsString × Json)) (key : JsString)

inductive Mode
  | value
  | valueOrEnd
  | keyOrEnd
  | key (rev : List (JsString × Json))
  | keyStr (kvs : List (JsString × Json)) (rev : JsString) (esc : Esc)
  | colon (kvs : List (JsString × Json)) (key : JsString)
  | str (rev : JsString) (esc : Esc)
  | num (n : Num) (rev : JsString)
  | word (rest : JsString) (v : Json)
  | after (v : Json)

def Scan.mode (inside : JsString → Esc → Mode) (after : JsString → Mode) : Scan → Mode
  | .more rev esc => inside rev esc
  | .closed s => after s

abbrev Reader := Mode × List Frame

/-- The first unit of a value. -/
def start (stack : List Frame) (u : UInt16) : Option Reader :=
  if u = dquote then some (.str [] .no, stack)
  else if u = lbrace then some (.keyOrEnd, stack)
  else if u = lbracket then some (.valueOrEnd, .arr [] :: stack)
  else if u = minus then some (.num .sign [u], stack)
  else if u = 48 then some (.num .zero [u], stack)
  else if isDigit u then some (.num .int [u], stack)
  else if u = 110 then some (.word (JsString.lit "ull") .null, stack)
  else if u = 116 then some (.word (JsString.lit "rue") (.bool true), stack)
  else if u = 102 then some (.word (JsString.lit "alse") (.bool false), stack)
  else none

/-- The unit after the value `v`. -/
def close (v : Json) (u : UInt16) : List Frame → Option Reader
  | [] => if isSpace u then some (.after v, []) else none
  | .arr rev :: stack =>
    if isSpace u then some (.after v, .arr rev :: stack)
    else if u = comma then some (.value, .arr (v :: rev) :: stack)
    else if u = rbracket then some (.after (.arr (v :: rev).reverse), stack)
    else none
  | .obj rev key :: stack =>
    if isSpace u then some (.after v, .obj rev key :: stack)
    else if u = comma then some (.key ((key, v) :: rev), stack)
    else if u = rbrace then some (.after (.obj ((key, v) :: rev).reverse), stack)
    else none

def step (stack : List Frame) (u : UInt16) : Mode → Option Reader
  | .value => if isSpace u then some (.value, stack) else start stack u
  | .valueOrEnd =>
    if isSpace u then some (.valueOrEnd, stack)
    else if u = rbracket then
      match stack with
      | .arr rev :: stack => some (.after (.arr rev.reverse), stack)
      | _ => none
    else start stack u
  | .keyOrEnd =>
    if isSpace u then some (.keyOrEnd, stack)
    else if u = rbrace then some (.after (.obj []), stack)
    else if u = dquote then some (.keyStr [] [] .no, stack)
    else none
  | .key kvs =>
    if isSpace u then some (.key kvs, stack)
    else if u = dquote then some (.keyStr kvs [] .no, stack)
    else none
  | .keyStr kvs rev esc => (scan rev u esc).map fun r => (r.mode (.keyStr kvs) (.colon kvs), stack)
  | .colon kvs key =>
    if isSpace u then some (.colon kvs key, stack)
    else if u = colon then some (.value, .obj kvs key :: stack)
    else none
  | .str rev esc =>
    (scan rev u esc).map fun r => (r.mode .str fun s => .after (.str s), stack)
  | .num n rev =>
    match n.next u with
    | some n => some (.num n (u :: rev), stack)
    -- the number ends before this unit
    | none => if n.complete then close (.num rev.reverse) u stack else none
  | .word [] v => close v u stack
  | .word (w :: rest) v =>
    if u = w then some (if rest = [] then .after v else .word rest v, stack) else none
  | .after v => close v u stack

def read (r : Reader) (s : JsString) : Option Reader := s.foldlM (fun r u => step r.2 u r.1) r

/-- The end of the text. -/
def finish : Reader → Option Json
  | (.after v, []) => some v
  | (.num n rev, []) => if n.complete then some (.num rev.reverse) else none
  | _ => none

/-- `JSON.parse`; `none` is a `SyntaxError`. -/
def parse (s : JsString) : Option Json := (read (.value, []) s).bind finish

/-- The value of a property: that of the last member with the name. -/
def property (kvs : List (JsString × Json)) (name : JsString) : Option Json :=
  (kvs.reverse.find? (·.1 = name)).map (·.2)

/-! ## Conversion to a string -/

mutual

/-- `String(v)`, given that of numbers; `none` is a `TypeError`. An own `toString` is not callable. -/
def toText (numberText : JsString → JsString) : Json → Option JsString
  | .null => some (JsString.lit "null")
  | .bool true => some (JsString.lit "true")
  | .bool false => some (JsString.lit "false")
  | .num t => some (numberText t)
  | .str s => some s
  | .arr xs => (elemTexts numberText xs).map [comma].intercalate
  | .obj kvs =>
    if (property kvs (JsString.lit "toString")).isSome then none
    else some (JsString.lit "[object Object]")

/-- What `Array.prototype.join` joins: `null` is empty. -/
def elemTexts (numberText : JsString → JsString) : List Json → Option (List JsString)
  | [] => some []
  | .null :: xs => (elemTexts numberText xs).map ([] :: ·)
  | x :: xs => do
    let t ← toText numberText x
    let ts ← elemTexts numberText xs
    some (t :: ts)

end

/-! ## Writing -/

def hexDigit (n : Nat) : UInt16 := UInt16.ofNat (if n < 10 then 48 + n else 87 + n)

/-- `\u` and four digits. -/
def unicodeEscape (n : Nat) : JsString :=
  [backslash, 117, hexDigit (n / 4096 % 16), hexDigit (n / 256 % 16), hexDigit (n / 16 % 16),
    hexDigit (n % 16)]

def quotePoint : JsString.CodePoint → JsString
  | .lone u => unicodeEscape u.toNat
  | .scalar c =>
    match c.toNat with
    | 8 => [backslash, 98]
    | 9 => [backslash, 116]
    | 10 => [backslash, 110]
    | 12 => [backslash, 102]
    | 13 => [backslash, 114]
    | 34 => [backslash, dquote]
    | 92 => [backslash, backslash]
    | n => if n < 0x20 then unicodeEscape n else JsString.charUnits c

/-- `QuoteJSONString`. -/
def quote (s : JsString) : JsString :=
  dquote :: (JsString.codePoints s).flatMap quotePoint ++ [dquote]

inductive Field
  | str (s : JsString)
  | num (n : Nat)

def Field.text : Field → JsString
  | .str s => quote s
  | .num n => (Nat.toDigits 10 n).map fun c => UInt16.ofNat c.toNat

def member (kv : JsString × Field) : JsString := quote kv.1 ++ colon :: kv.2.text

def stringify (kvs : List (JsString × Field)) : JsString :=
  lbrace :: [comma].intercalate (kvs.map member) ++ [rbrace]

/-! ## What is written is read back -/

theorem read_cons (r : Reader) (u : UInt16) (s : JsString) :
    read r (u :: s) = (step r.2 u r.1).bind fun r => read r s := List.foldlM_cons

@[simp] theorem read_nil (r : Reader) : read r [] = some r := rfl

/-- The reader is inside a string, the value or the key of a member. -/
def Scans (inside : JsString → Esc → Mode) (after : JsString → Mode) : Prop :=
  ∀ stack u rev esc, step stack u (inside rev esc) =
    (scan rev u esc).map fun r => (r.mode inside after, stack)

theorem scans_str : Scans .str fun s => .after (.str s) := fun _ _ _ _ => rfl

theorem scans_keyStr (kvs : List (JsString × Json)) : Scans (.keyStr kvs) (.colon kvs) :=
  fun _ _ _ _ => rfl

theorem hexDigit_spec : ∀ n < 16, hexValue (hexDigit n) = some n := by
  decide

section
variable {inside : JsString → Esc → Mode} {after : JsString → Mode} {stack : List Frame}
  {rev : JsString}

theorem Scans.unit (h : Scans inside after) {u : UInt16} (hq : u ≠ dquote) (hb : u ≠ backslash)
    (hu : 0x20 ≤ u.toNat) (s : JsString) :
    read (inside rev .no, stack) (u :: s) = read (inside (u :: rev) .no, stack) s := by
  have hlow : ¬ u.toNat < 0x20 := by omega
  simp [read_cons, h stack u, scan, hq, hb, hlow, Scan.mode]

theorem Scans.short (h : Scans inside after) {u v : UInt16} (hv : escaped u = some v)
    (hu : u ≠ 117) (s : JsString) :
    read (inside rev .no, stack) (backslash :: u :: s) = read (inside (v :: rev) .no, stack) s := by
  simp [read_cons, h stack, scan, Scan.mode, hv, hu, show backslash ≠ dquote by decide]

theorem Scans.hexDigit (h : Scans inside after) {n acc d : Nat} (hd : d < 16) (s : JsString) :
    read (inside rev (.hex (n + 2) acc), stack) (Json.hexDigit d :: s) =
      read (inside rev (.hex (n + 1) (acc * 16 + d)), stack) s := by
  simp [read_cons, h stack, scan, hexDigit_spec d hd, Scan.mode]

theorem Scans.lastDigit (h : Scans inside after) {acc d : Nat} (hd : d < 16) (s : JsString) :
    read (inside rev (.hex 1 acc), stack) (Json.hexDigit d :: s) =
      read (inside (UInt16.ofNat (acc * 16 + d) :: rev) .no, stack) s := by
  simp only [read_cons, h stack, scan, hexDigit_spec d hd, Option.map_some, if_true, Scan.mode,
    Option.bind_some]

theorem Scans.unicodeEscape (h : Scans inside after) {n : Nat} (hn : n < 0x10000) (s : JsString) :
    read (inside rev .no, stack) (Json.unicodeEscape n ++ s) =
      read (inside (UInt16.ofNat n :: rev) .no, stack) s := by
  have hdigit : ∀ m, m % 16 < 16 := fun m => Nat.mod_lt _ (by decide)
  have hval : (((0 * 16 + n / 4096 % 16) * 16 + n / 256 % 16) * 16 + n / 16 % 16) * 16 + n % 16 =
      n := by omega
  have hslash : read (inside rev .no, stack) (Json.unicodeEscape n ++ s) =
      read (inside rev (.hex 4 0), stack) (Json.hexDigit (n / 4096 % 16) ::
        Json.hexDigit (n / 256 % 16) :: Json.hexDigit (n / 16 % 16) :: Json.hexDigit (n % 16) :: s) := by
    simp [Json.unicodeEscape, read_cons, h stack, scan, Scan.mode, backslash, dquote]
  rw [hslash, h.hexDigit (hdigit _), h.hexDigit (hdigit _), h.hexDigit (hdigit _),
    h.lastDigit (hdigit _), hval]

theorem Scans.quotePoint (h : Scans inside after) (p : JsString.CodePoint) (s : JsString) :
    read (inside rev .no, stack) (Json.quotePoint p ++ s) =
      read (inside (p.units.reverse ++ rev) .no, stack) s := by
  cases p with
  | lone u =>
    rw [Json.quotePoint, h.unicodeEscape u.toNat_lt, UInt16.ofNat_toNat]
    rfl
  | scalar c =>
    have hshort : ∀ {n u}, c.toNat = n → n < 0x10000 → escaped u = some (UInt16.ofNat n) → u ≠ 117 →
        read (inside rev .no, stack) ([backslash, u] ++ s) =
          read (inside ((JsString.charUnits c).reverse ++ rev) .no, stack) s := by
      intro n u hn hlt hv hu
      have hunits : JsString.charUnits c = [UInt16.ofNat n] := by
        rw [JsString.charUnits, hn, if_pos hlt]
      rw [hunits]
      exact h.short hv hu s
    have hrange := JsString.toNat_range c
    have hunit : ∀ {n}, n < 0x10000 → (UInt16.ofNat n).toNat = n := UInt16.toNat_ofNat_of_lt'
    have hne : ∀ {n m}, n < 0x10000 → m < 0x10000 → n ≠ m → UInt16.ofNat n ≠ UInt16.ofNat m := by
      intro n m hn hm hnm heq
      exact hnm (by rw [← hunit hn, ← hunit hm, heq])
    simp only [Json.quotePoint, JsString.CodePoint.units]
    split
    · exact hshort ‹_› (by decide) rfl (by decide)
    · exact hshort ‹_› (by decide) rfl (by decide)
    · exact hshort ‹_› (by decide) rfl (by decide)
    · exact hshort ‹_› (by decide) rfl (by decide)
    · exact hshort ‹_› (by decide) rfl (by decide)
    · exact hshort ‹_› (by decide) rfl (by decide)
    · exact hshort ‹_› (by decide) rfl (by decide)
    · rename_i hq hb
      split
      · rename_i hlow
        have hunits : JsString.charUnits c = [UInt16.ofNat c.toNat] :=
          if_pos (Nat.lt_trans hlow (by decide))
        rw [h.unicodeEscape (Nat.lt_trans hlow (by decide)), hunits]
        rfl
      · rename_i hlow
        unfold JsString.charUnits
        split
        · rename_i hlt
          refine h.unit (hne hlt (by decide) hq) (hne hlt (by decide) hb) ?_ s
          rw [hunit hlt]
          omega
        · rename_i hbig
          -- two surrogates
          have hlead : ∀ {m}, 0xD800 ≤ m → m < 0xE000 → UInt16.ofNat m ≠ dquote ∧
              UInt16.ofNat m ≠ backslash ∧ 0x20 ≤ (UInt16.ofNat m).toNat := by
            intro m hlo hhi
            have hm : m < 0x10000 := by omega
            refine ⟨hne (m := 34) hm (by decide) (by omega), hne (m := 92) hm (by decide) (by omega), ?_⟩
            rw [hunit hm]
            omega
          obtain ⟨h1, h2, h3⟩ := hlead (m := 0xD800 + (c.toNat - 0x10000) / 0x400) (by omega) (by omega)
          obtain ⟨h4, h5, h6⟩ := hlead (m := 0xDC00 + (c.toNat - 0x10000) % 0x400) (by omega) (by omega)
          rw [List.cons_append, h.unit h1 h2 h3, List.cons_append, h.unit h4 h5 h6]
          rfl

theorem Scans.flatMap (h : Scans inside after) (ps : List JsString.CodePoint) (s : JsString) :
    read (inside rev .no, stack) (ps.flatMap Json.quotePoint ++ s) =
      read (inside ((ps.flatMap JsString.CodePoint.units).reverse ++ rev) .no, stack) s := by
  induction ps generalizing rev with
  | nil => rfl
  | cons p ps ih =>
    rw [List.flatMap_cons, List.append_assoc, h.quotePoint, ih, List.flatMap_cons,
      List.reverse_append, List.append_assoc]

/-- A quoted string, after its first unit. -/
theorem Scans.quote (h : Scans inside after) (s t : JsString) :
    read (inside [] .no, stack) ((JsString.codePoints s).flatMap Json.quotePoint ++ dquote :: t) =
      read (after s, stack) t := by
  rw [h.flatMap, JsString.flatMap_codePoints, List.append_nil]
  simp [read_cons, h stack, scan, Scan.mode]

end

theorem read_str (stack : List Frame) (s t : JsString) :
    read (.value, stack) (quote s ++ t) = read (.after (.str s), stack) t := by
  have hstart : step stack dquote .value = some (.str [] .no, stack) := by
    simp [step, start, show isSpace dquote = false by decide]
  rw [quote, List.cons_append, List.cons_append, read_cons, hstart, Option.bind_some,
    List.append_assoc]
  exact scans_str.quote s t

theorem read_key (kvs : List (JsString × Json)) (stack : List Frame) (k t : JsString) :
    read (.key kvs, stack) (quote k ++ t) = read (.colon kvs k, stack) t := by
  have hstart : step stack dquote (.key kvs) = some (.keyStr kvs [] .no, stack) := by
    simp [step, show isSpace dquote = false by decide]
  rw [quote, List.cons_append, List.cons_append, read_cons, hstart, Option.bind_some,
    List.append_assoc]
  exact (scans_keyStr kvs).quote k t

theorem read_keyOrEnd (stack : List Frame) (k t : JsString) :
    read (.keyOrEnd, stack) (quote k ++ t) = read (.key [], stack) (quote k ++ t) := by
  have hstart : step stack dquote .keyOrEnd = step stack dquote (.key []) := by
    simp [step, show isSpace dquote = false by decide, show dquote ≠ rbrace by decide]
  simp only [quote, List.cons_append, read_cons, hstart]

theorem read_member (kvs : List (JsString × Json)) (stack : List Frame) (kv : JsString × JsString)
    (t : JsString) :
    read (.key kvs, stack) (member (kv.1, .str kv.2) ++ t) =
      read (.after (.str kv.2), .obj kvs kv.1 :: stack) t := by
  have hcolon : step stack colon (.colon kvs kv.1) = some (.value, .obj kvs kv.1 :: stack) := by
    simp [step, show isSpace colon = false by decide]
  rw [member, List.append_assoc, read_key, List.cons_append, read_cons, hcolon, Option.bind_some,
    Field.text, read_str]

/-- An object of strings, and the text of it. -/
def strings (kvs : List (JsString × JsString)) : List (JsString × Json) :=
  kvs.map fun kv => (kv.1, .str kv.2)

theorem read_members (kvs : List (JsString × JsString)) (kv : JsString × JsString)
    (rev : List (JsString × Json)) (stack : List Frame) :
    read (.key rev, stack)
        ([comma].intercalate ((kv :: kvs).map fun kv => member (kv.1, .str kv.2)) ++ [rbrace]) =
      some (.after (.obj (rev.reverse ++ strings (kv :: kvs))), stack) := by
  induction kvs generalizing kv rev with
  | nil =>
    rw [List.map_cons, List.map_nil, List.intercalate_singleton, read_member, read_cons]
    simp [step, close, strings, show isSpace rbrace = false by decide,
      show rbrace ≠ comma by decide]
  | cons kv' kvs ih =>
    have hcomma : step (.obj rev kv.1 :: stack) comma (.after (.str kv.2)) =
        some (.key ((kv.1, .str kv.2) :: rev), stack) := by
      simp [step, close, show isSpace comma = false by decide]
    rw [List.map_cons, List.map_cons, List.intercalate_cons_cons, List.append_assoc,
      List.append_assoc, read_member, List.singleton_append, read_cons, hcomma, Option.bind_some]
    exact (ih kv' _).trans (by simp [strings])

/-- **What `stringify` writes, `parse` reads.** -/
theorem parse_stringify (kvs : List (JsString × JsString)) :
    parse (stringify (kvs.map fun kv => (kv.1, .str kv.2))) = some (.obj (strings kvs)) := by
  have hopen : step [] lbrace .value = some (.keyOrEnd, []) := rfl
  rw [parse, stringify, List.cons_append, read_cons, hopen, Option.bind_some, List.map_map]
  cases kvs with
  | nil => rfl
  | cons kv kvs =>
    have hkey := read_members kvs kv [] []
    obtain ⟨t, ht⟩ : ∃ t, [comma].intercalate ((kv :: kvs).map fun kv => member (kv.1, .str kv.2)) ++
        [rbrace] = quote kv.1 ++ t := by
      cases kvs with
      | nil => exact ⟨_, by simp [member]; rfl⟩
      | cons kv' kvs => exact ⟨_, by simp [member]; rfl⟩
    rw [ht] at hkey
    simp only [Function.comp_def]
    rw [ht, read_keyOrEnd, hkey]
    rfl

/-! ## Sizes -/

/-- Units that are quoted as they are. -/
def Plain (u : UInt16) : Prop := 0x20 ≤ u.toNat ∧ u.toNat < 0x80 ∧ u ≠ dquote ∧ u ≠ backslash

theorem quotePoint_plain {u : UInt16} (h : Plain u) :
    quotePoint (.scalar (Char.ofNat u.toNat)) = [u] := by
  obtain ⟨hlow, hhigh, hq, hb⟩ := h
  have hn : (Char.ofNat u.toNat).toNat = u.toNat := JsString.toNat_ofNat_char (Or.inl (by omega))
  have hq : u.toNat ≠ 34 := fun hu => hq (UInt16.toNat_inj.mp hu)
  have hb : u.toNat ≠ 92 := fun hu => hb (UInt16.toNat_inj.mp hu)
  have hctrl : ¬ u.toNat < 0x20 := by omega
  have hbmp : u.toNat < 0x10000 := u.toNat_lt
  simp only [quotePoint, hn]
  split
  case h_8 => rw [if_neg hctrl, JsString.charUnits, hn, if_pos hbmp, UInt16.ofNat_toNat]
  all_goals omega

theorem quote_plain {s : JsString} (h : ∀ u ∈ s, Plain u) : quote s = dquote :: s ++ [dquote] := by
  have hascii : JsString.IsAscii s := fun u hu => (h u hu).2.1
  have hbody : (JsString.codePoints s).flatMap quotePoint = s := by
    rw [JsString.codePoints_ascii hascii, List.flatMap_map]
    exact (List.flatMap_congr fun u hu => quotePoint_plain (h u hu)).trans (List.flatMap_singleton' s)
  rw [quote, hbody]

theorem size_quote_plain {s : JsString} (h : ∀ u ∈ s, Plain u) :
    JsString.size (quote s) = s.length + 2 := by
  have hascii : JsString.IsAscii s := fun u hu => (h u hu).2.1
  have hquote : dquote.toNat < 0x80 := by decide
  rw [quote_plain h, JsString.size_ascii]
  · simp
  · exact JsString.IsAscii.append (hascii.cons hquote) (JsString.IsAscii.cons hquote (List.forall_mem_nil _))

/-- The bytes of a member and of what follows it, a comma or a brace. -/
def memberSize (kv : JsString × Field) : Nat :=
  JsString.size (quote kv.1) + 1 + JsString.size kv.2.text + 1

theorem size_member (kv : JsString × Field) {u : UInt16} (hu : u.toNat < 0x80) (t : JsString) :
    JsString.size (member kv ++ u :: t) = memberSize kv + JsString.size t := by
  have hlow : ∀ v : UInt16, v.toNat < 0x80 → JsString.isLow v = false := by
    intro v hv
    have h : ¬ 0xDC00 ≤ v.toNat := by omega
    simp [JsString.isLow, h]
  have hcolon : colon.toNat < 0x80 := by decide
  rw [member, List.append_assoc, List.cons_append, JsString.size_append _ _ (hlow _ hcolon),
    JsString.size_cons hcolon, JsString.size_append _ _ (hlow _ hu), JsString.size_cons hu, memberSize]
  omega

theorem size_members (kvs : List (JsString × Field)) (kv : JsString × Field) :
    JsString.size ([comma].intercalate ((kv :: kvs).map member) ++ [rbrace]) =
      ((kv :: kvs).map memberSize).sum := by
  induction kvs generalizing kv with
  | nil =>
    rw [List.map_singleton, List.intercalate_singleton, size_member kv (by decide)]
    rfl
  | cons kv' kvs ih =>
    rw [List.map_cons, List.map_cons, List.intercalate_cons_cons, List.append_assoc,
      List.append_assoc, List.singleton_append, size_member kv (by decide), ← List.map_cons, ih kv']
    rfl

theorem size_stringify (kv : JsString × Field) (kvs : List (JsString × Field)) :
    JsString.size (stringify (kv :: kvs)) = 1 + ((kv :: kvs).map memberSize).sum := by
  rw [stringify, List.cons_append, JsString.size_cons (by decide), size_members]

end Json
end Lib
