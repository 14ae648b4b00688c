import Mathlib.Data.List.Forall2
import Mathlib.Data.List.Nodup
import E2EAnon.Lib.Json

/-!
# Texts that are read as a value

`parse_stringify` is about one writer. Here a text is related to the value the reader takes it for,
whoever wrote it: `Spells` inside a string, `Closed` for a text that ends its value itself, `Writes`
for one that the unit after it ends (a number). Each has a rule for every kind of value, and
`parse_of_closed` and `parse_of_writes` end a proof about a writer.
-/

namespace Lib.Json

variable {w w' s s' : JsString} {v : Json}

theorem read_append (r : Reader) (a b : JsString) :
    read r (a ++ b) = (read r a).bind fun r => read r b := by
  simp only [read, List.foldlM_append, Option.bind_eq_bind]

/-! ## Strings -/

/-- Inside a string the text `w` stands for `s`. -/
def Spells (w s : JsString) : Prop :=
  ∀ inside after, Scans inside after → ∀ (stack : List Frame) (rev t : JsString),
    read (inside rev .no, stack) (w ++ t) = read (inside (s.reverse ++ rev) .no, stack) t

theorem Spells.nil : Spells [] [] := fun _ _ _ _ _ _ => rfl

theorem Spells.append (h : Spells w s) (h' : Spells w' s') : Spells (w ++ w') (s ++ s') := by
  intro inside after hscan stack rev t
  rw [List.append_assoc, h _ _ hscan, h' _ _ hscan, List.reverse_append, List.append_assoc]

theorem spells_flatMap {α : Type} {f g : α → JsString} {l : List α}
    (h : ∀ a ∈ l, Spells (f a) (g a)) : Spells (l.flatMap f) (l.flatMap g) := by
  induction l with
  | nil => exact .nil
  | cons a l ih =>
    simp only [List.flatMap_cons]
    exact (h a (by simp)).append (ih fun b hb => h b (by simp [hb]))

theorem spells_unit {u : UInt16} (hq : u ≠ dquote) (hb : u ≠ backslash) (hu : 0x20 ≤ u.toNat) :
    Spells [u] [u] :=
  fun _ _ hscan _ _ t => hscan.unit hq hb hu t

theorem spells_short {u v : UInt16} (hv : escaped u = some v) (hu : u ≠ 117) :
    Spells [backslash, u] [v] :=
  fun _ _ hscan _ _ t => hscan.short hv hu t

theorem spells_unicode {n : Nat} (hn : n < 0x10000) : Spells (unicodeEscape n) [UInt16.ofNat n] :=
  fun _ _ hscan _ _ t => hscan.unicodeEscape hn t

/-- A character that needs no escape. -/
theorem spells_char {c : Char} (hlow : 0x20 ≤ c.toNat) (hq : c.toNat ≠ 34) (hb : c.toNat ≠ 92) :
    Spells (JsString.charUnits c) (JsString.charUnits c) := by
  have hrange := JsString.toNat_range c
  have hunit : ∀ {n}, n < 0x10000 → 0x20 ≤ n → n ≠ 34 → n ≠ 92 →
      Spells [UInt16.ofNat n] [UInt16.ofNat n] := by
    intro n hn hn' hq hb
    have hval : (UInt16.ofNat n).toNat = n := UInt16.toNat_ofNat_of_lt' hn
    refine spells_unit (fun h => hq ?_) (fun h => hb ?_) (by rw [hval]; exact hn')
    · rw [← hval, h]
      rfl
    · rw [← hval, h]
      rfl
  unfold JsString.charUnits
  split
  · rename_i hc
    exact hunit hc hlow hq hb
  · rename_i hc
    -- two surrogates
    exact (hunit (by omega) (by omega) (by omega) (by omega)).append
      (hunit (by omega) (by omega) (by omega) (by omega))

/-- What `JSON.stringify` makes of a string. -/
theorem spells_quote (s : JsString) : Spells ((JsString.codePoints s).flatMap quotePoint) s := by
  have h : Spells ((JsString.codePoints s).flatMap quotePoint)
      ((JsString.codePoints s).flatMap JsString.CodePoint.units) :=
    fun _ _ hscan _ _ t => hscan.flatMap _ t
  rwa [JsString.flatMap_codePoints] at h

/-! ## Values -/

/-- A unit that ends a number. -/
def Ends (u : UInt16) : Prop := u = comma ∨ u = rbrace ∨ u = rbracket ∨ u = 10

/-- The text of `v`, of which the end is seen. -/
def Closed (w : JsString) (v : Json) : Prop :=
  ∀ stack, read (.value, stack) w = some (.after v, stack)

/-- The text of `v` where the next unit ends it. -/
def Writes (w : JsString) (v : Json) : Prop :=
  ∀ stack u t, Ends u → read (.value, stack) (w ++ u :: t) = read (.after v, stack) (u :: t)

theorem Closed.writes (h : Closed w v) : Writes w v := by
  intro stack u t _
  rw [read_append, h stack, Option.bind_some]

theorem parse_of_closed (h : Closed w v) : parse w = some v := by
  rw [parse, h [], Option.bind_some]
  rfl

/-- A text with a line feed behind it. -/
theorem parse_of_writes (h : Writes w v) : parse (w ++ [10]) = some v := by
  rw [parse, h [] 10 [] (.inr (.inr (.inr rfl)))]
  rfl

def quoted (w : JsString) : JsString := dquote :: w ++ [dquote]

theorem closed_str (h : Spells w s) : Closed (quoted w) (.str s) := by
  intro stack
  have hstart : step stack dquote .value = some (.str [] .no, stack) := by
    simp [step, start, show isSpace dquote = false by decide]
  rw [quoted, List.cons_append, read_cons, hstart, Option.bind_some, h _ _ scans_str]
  simp [read_cons, scans_str stack, scan, Scan.mode]

/-! ## Integers -/

def digitUnit (c : Char) : UInt16 := UInt16.ofNat c.toNat

/-- A decimal digit. -/
def digit (m : Nat) : UInt16 := UInt16.ofNat (48 + m)

theorem digit_spec : ∀ m < 10, isDigit (digit m) = true ∧ (digit m = 48 ↔ m = 0) := by
  decide

def natText (n : Nat) : JsString := (Nat.toDigits 10 n).map digitUnit

def intText : Int → JsString
  | .ofNat n => natText n
  | .negSucc n => minus :: natText (n + 1)

theorem natText_small {n : Nat} (h : n < 10) : natText n = [digit n] := by
  rw [natText, Nat.toDigits_of_lt_base h, List.map_singleton, digitUnit,
    Nat.toNat_digitChar_of_lt_ten h, digit]

theorem natText_big {n : Nat} (h : 10 ≤ n) :
    natText n = natText (n / 10) ++ [digit (n % 10)] := by
  have hmod : n % 10 < 10 := Nat.mod_lt _ (by decide)
  rw [natText, Nat.toDigits_of_base_le (by decide) h, List.map_append, List.map_singleton, digitUnit,
    Nat.toNat_digitChar_of_lt_ten hmod]
  rfl

/-- The digits after a sign. -/
theorem read_natText (n : Nat) (rev : JsString) (stack : List Frame) :
    read (.num .sign rev, stack) (natText n) =
      some (.num (if n = 0 then .zero else .int) ((natText n).reverse ++ rev), stack) := by
  induction n using Nat.strong_induction_on with
  | _ n ih =>
    by_cases hn : n < 10
    · rw [natText_small hn, read_cons]
      by_cases h0 : n = 0
      · subst h0
        rfl
      · have hne : digit n ≠ 48 := fun h => h0 ((digit_spec n hn).2.mp h)
        simp [step, Num.next, hne, (digit_spec n hn).1, h0]
    · have hdiv : n / 10 ≠ 0 := by omega
      have hmod : n % 10 < 10 := Nat.mod_lt _ (by decide)
      have h0 : n ≠ 0 := by omega
      rw [natText_big (by omega), read_append, ih (n / 10) (by omega), if_neg hdiv, Option.bind_some,
        read_cons]
      simp [step, Num.next, (digit_spec _ hmod).1, h0]

/-- The first digit of a number without a sign. -/
theorem read_value_natText (n : Nat) (stack : List Frame) :
    read (.value, stack) (natText n) = read (.num .sign [], stack) (natText n) := by
  obtain ⟨m, t, hm, ht⟩ : ∃ m t, m < 10 ∧ natText n = digit m :: t := by
    induction n using Nat.strong_induction_on with
    | _ n ih =>
      by_cases hn : n < 10
      · exact ⟨n, [], hn, natText_small hn⟩
      · obtain ⟨m, t, hm, ht⟩ := ih (n / 10) (by omega)
        exact ⟨m, t ++ [digit (n % 10)], hm, by rw [natText_big (by omega), ht]; rfl⟩
  have hfirst : ∀ m < 10, step stack (digit m) .value = step stack (digit m) (.num .sign []) := by
    intro m hm
    have hcases : m = 0 ∨ m = 1 ∨ m = 2 ∨ m = 3 ∨ m = 4 ∨ m = 5 ∨ m = 6 ∨ m = 7 ∨ m = 8 ∨ m = 9 := by
      omega
    obtain rfl | rfl | rfl | rfl | rfl | rfl | rfl | rfl | rfl | rfl := hcases <;> rfl
  rw [ht, read_cons, read_cons, hfirst m hm]

theorem writes_int (n : Int) : Writes (intText n) (.num (intText n)) := by
  intro stack u t hu
  -- a number that is complete ends before `u`
  have hend : ∀ (m : Nat) (rev : JsString),
      read (.num (if m = 0 then .zero else .int) rev, stack) (u :: t) =
        read (.after (.num rev.reverse), stack) (u :: t) := by
    intro m rev
    have hnext : ∀ k : Num, k = .zero ∨ k = .int → k.next u = none ∧ k.complete = true := by
      rintro k (rfl | rfl) <;> obtain rfl | rfl | rfl | rfl := hu <;> decide
    obtain ⟨h1, h2⟩ := hnext (if m = 0 then .zero else .int) (by split <;> simp)
    simp only [read_cons, step, h1, h2, if_true]
  rw [read_append]
  cases n with
  | ofNat n =>
    rw [intText, read_value_natText, read_natText, Option.bind_some, hend]
    simp
  | negSucc n =>
    have hminus : step stack minus .value = some (.num .sign [minus], stack) := by
      simp [step, start, minus, isSpace, dquote, lbrace, lbracket]
    rw [intText, read_cons, hminus, Option.bind_some, read_natText, Option.bind_some, hend]
    simp

/-! ## Objects and arrays -/

/-- `m` is the text of the member `kv`. -/
def WritesMember (m : JsString) (kv : JsString × Json) : Prop :=
  ∃ k w, m = quoted k ++ colon :: w ∧ Spells k kv.1 ∧ Writes w kv.2

theorem writesMember {k : JsString} (hk : Spells k s) (hw : Writes w v) :
    WritesMember (quoted k ++ colon :: w) (s, v) :=
  ⟨k, w, rfl, hk, hw⟩

def objectText (ms : List JsString) : JsString := lbrace :: [comma].intercalate ms ++ [rbrace]

def arrayText (ws : List JsString) : JsString := lbracket :: [comma].intercalate ws ++ [rbracket]

/-- A member up to the unit behind it. -/
theorem read_writesMember {m : JsString} {kv : JsString × Json} (h : WritesMember m kv)
    (kvs : List (JsString × Json)) (stack : List Frame) {u : UInt16} (hu : Ends u) (t : JsString) :
    read (.key kvs, stack) (m ++ u :: t) = read (.after kv.2, .obj kvs kv.1 :: stack) (u :: t) := by
  obtain ⟨k, w, rfl, hk, hw⟩ := h
  have hstart : step stack dquote (.key kvs) = some (.keyStr kvs [] .no, stack) := by
    simp [step, show isSpace dquote = false by decide]
  have hcolon : step stack colon (.colon kvs kv.1) = some (.value, .obj kvs kv.1 :: stack) := by
    simp [step, show isSpace colon = false by decide]
  have hname : read (.key kvs, stack) (quoted k) = some (.colon kvs kv.1, stack) := by
    rw [quoted, List.cons_append, read_cons, hstart, Option.bind_some, hk _ _ (scans_keyStr kvs)]
    simp [read_cons, scans_keyStr kvs stack, scan, Scan.mode]
  rw [List.append_assoc, read_append, hname, Option.bind_some, List.cons_append, read_cons, hcolon,
    Option.bind_some, hw _ _ _ hu]

theorem read_members_text {ms : List JsString} {kvs : List (JsString × Json)}
    (h : List.Forall₂ WritesMember ms kvs) (hne : ms ≠ []) (rev : List (JsString × Json))
    (stack : List Frame) : read (.key rev, stack) ([comma].intercalate ms ++ [rbrace]) =
      some (.after (.obj (rev.reverse ++ kvs)), stack) := by
  induction h generalizing rev with
  | nil => exact absurd rfl hne
  | @cons m kv ms kvs hm htail ih =>
    cases htail with
    | nil =>
      rw [List.intercalate_singleton, read_writesMember hm _ _ (.inr (.inl rfl)), read_cons]
      simp [step, close, show isSpace rbrace = false by decide, show rbrace ≠ comma by decide]
    | cons hm' htail =>
      have hcomma : step (.obj rev kv.1 :: stack) comma (.after kv.2) =
          some (.key ((kv.1, kv.2) :: rev), stack) := by
        simp [step, close, show isSpace comma = false by decide]
      rw [List.intercalate_cons_cons, List.append_assoc, List.append_assoc, List.singleton_append,
        read_writesMember hm _ _ (.inl rfl), read_cons, hcomma, Option.bind_some]
      exact (ih (by simp) _).trans (by simp)

theorem closed_object {ms : List JsString} {kvs : List (JsString × Json)}
    (h : List.Forall₂ WritesMember ms kvs) : Closed (objectText ms) (.obj kvs) := by
  intro stack
  have hopen : step stack lbrace .value = some (.keyOrEnd, stack) := by
    simp [step, start, isSpace, lbrace, dquote]
  rw [objectText, List.cons_append, read_cons, hopen, Option.bind_some]
  cases h with
  | nil =>
    rw [List.intercalate_nil, List.nil_append, read_cons]
    simp [step, isSpace, rbrace]
  | @cons m kv ms kvs hm htail =>
    have hmembers := read_members_text (.cons hm htail) (List.cons_ne_nil m ms) [] stack
    -- the first member starts with its name
    obtain ⟨k, w, rfl, -, -⟩ := hm
    obtain ⟨t, ht⟩ : ∃ t, [comma].intercalate ((quoted k ++ colon :: w) :: ms) ++ [rbrace] =
        dquote :: t := by
      cases ms with
      | nil => exact ⟨_, by rw [List.intercalate_singleton]; rfl⟩
      | cons m' ms => exact ⟨_, by rw [List.intercalate_cons_cons]; rfl⟩
    have hfirst : step stack dquote .keyOrEnd = step stack dquote (.key []) := by
      simp [step, isSpace, dquote, rbrace]
    rw [ht, read_cons] at hmembers
    rw [ht, read_cons, hfirst, hmembers]
    rfl

theorem read_elems {ws : List JsString} {vs : List Json} (h : List.Forall₂ Writes ws vs)
    (hne : ws ≠ []) (rev : List Json) (stack : List Frame) :
    read (.value, .arr rev :: stack) ([comma].intercalate ws ++ [rbracket]) =
      some (.after (.arr (rev.reverse ++ vs)), stack) := by
  induction h generalizing rev with
  | nil => exact absurd rfl hne
  | @cons w v ws vs hw htail ih =>
    cases htail with
    | nil =>
      rw [List.intercalate_singleton, hw _ _ _ (.inr (.inr (.inl rfl))), read_cons]
      simp [step, close, show isSpace rbracket = false by decide, show rbracket ≠ comma by decide]
    | cons hw' htail =>
      have hcomma : step (.arr rev :: stack) comma (.after v) =
          some (.value, .arr (v :: rev) :: stack) := by
        simp [step, close, show isSpace comma = false by decide]
      rw [List.intercalate_cons_cons, List.append_assoc, List.append_assoc, List.singleton_append,
        hw _ _ _ (.inl rfl), read_cons, hcomma, Option.bind_some]
      exact (ih (by simp) _).trans (by simp)

/-- An array of texts that start with a brace. -/
theorem closed_array {ws : List JsString} {vs : List Json} (h : List.Forall₂ Writes ws vs)
    (hstart : ∀ w ∈ ws, w.head? = some lbrace) : Closed (arrayText ws) (.arr vs) := by
  intro stack
  have hopen : step stack lbracket .value = some (.valueOrEnd, .arr [] :: stack) := by
    simp [step, start, isSpace, lbracket, lbrace, dquote]
  rw [arrayText, List.cons_append, read_cons, hopen, Option.bind_some]
  cases h with
  | nil =>
    rw [List.intercalate_nil, List.nil_append, read_cons]
    simp [step, isSpace, rbracket]
  | @cons w v ws vs hw htail =>
    have helems := read_elems (.cons hw htail) (List.cons_ne_nil w ws) [] stack
    obtain ⟨w', rfl⟩ : ∃ w', w = lbrace :: w' := by
      have hw := hstart w (by simp)
      cases w with
      | nil => simp at hw
      | cons u w' => exact ⟨w', by simpa using hw⟩
    obtain ⟨t, ht⟩ : ∃ t, [comma].intercalate ((lbrace :: w') :: ws) ++ [rbracket] = lbrace :: t := by
      cases ws with
      | nil => exact ⟨_, by rw [List.intercalate_singleton]; rfl⟩
      | cons w'' ws => exact ⟨_, by rw [List.intercalate_cons_cons]; rfl⟩
    have hfirst : step (.arr [] :: stack) lbrace .valueOrEnd = step (.arr [] :: stack) lbrace .value := by
      simp [step, isSpace, lbrace, rbracket]
    rw [ht, read_cons] at helems
    rw [ht, read_cons, hfirst, helems]
    rfl

/-! ## What `JSON.stringify` writes -/

def Field.json : Field → Json
  | .str s => .str s
  | .num n => .num (natText n)

theorem writes_field (f : Field) : Writes f.text f.json := by
  cases f with
  | str s => exact (closed_str (spells_quote s)).writes
  | num n => exact writes_int (.ofNat n)

theorem closed_stringify (kvs : List (JsString × Field)) :
    Closed (stringify kvs) (.obj (kvs.map fun kv => (kv.1, kv.2.json))) := by
  refine closed_object (List.forall₂_map_left_iff.mpr (List.forall₂_map_right_iff.mpr ?_))
  refine List.forall₂_same.mpr fun kv _ => ?_
  exact writesMember (spells_quote kv.1) (writes_field kv.2)

/-! ## The digits of a number -/

/-- A run of digits as a number. -/
def natValue (ds : JsString) : Option Nat :=
  ds.foldlM (fun acc u => if isDigit u then some (acc * 10 + (u.toNat - 48)) else none) 0

/-- The text of an integer. -/
def intValue : JsString → Option Int
  | [] => none
  | u :: ds => if u = minus then (natValue ds).map fun n => -n else (natValue (u :: ds)).map (↑·)

theorem natValue_natText (n : Nat) : natValue (natText n) = some n := by
  have hdigit : ∀ m < 10, isDigit (digit m) = true ∧ (digit m).toNat - 48 = m := by decide
  induction n using Nat.strong_induction_on with
  | _ n ih =>
    by_cases hn : n < 10
    · rw [natText_small hn]
      simp [natValue, (hdigit n hn).1, (hdigit n hn).2]
    · have hmod : n % 10 < 10 := Nat.mod_lt _ (by decide)
      have hdiv := ih (n / 10) (by omega)
      rw [natText_big (by omega)]
      simp only [natValue, List.foldlM_append] at hdiv ⊢
      rw [hdiv]
      simp only [Option.bind_eq_bind, Option.bind_some, List.foldlM_cons, (hdigit _ hmod).1, if_true,
        (hdigit _ hmod).2, List.foldlM_nil, Option.pure_def, Option.some.injEq]
      omega

theorem intValue_intText (n : Int) : intValue (intText n) = some n := by
  cases n with
  | ofNat n =>
    obtain ⟨u, t, ht⟩ : ∃ u t, natText n = u :: t := by
      cases h : natText n with
      | nil => simp [natText, Nat.toDigits_ne_nil] at h
      | cons u t => exact ⟨u, t, rfl⟩
    have hvalue := natValue_natText n
    have hminus : u ≠ minus := by
      rintro rfl
      rw [ht] at hvalue
      simp [natValue, isDigit, minus] at hvalue
    rw [intText, ht, intValue, if_neg hminus, ← ht, hvalue]
    rfl
  | negSucc n =>
    rw [intText, intValue, if_pos rfl, natValue_natText]
    rfl

/-! ## Properties -/

theorem property_eq_none {kvs : List (JsString × Json)} {name : JsString}
    (h : name ∉ kvs.map (·.1)) : property kvs name = none := by
  rw [property, Option.map_eq_none_iff, List.find?_eq_none]
  intro kv hkv heq
  refine h (List.mem_map.mpr ⟨kv, List.mem_reverse.mp hkv, ?_⟩)
  simpa using heq

theorem property_of_mem {kvs : List (JsString × Json)} (hnames : (kvs.map (·.1)).Nodup)
    {kv : JsString × Json} (h : kv ∈ kvs) : property kvs kv.1 = some kv.2 := by
  cases hfind : kvs.reverse.find? (·.1 = kv.1) with
  | none =>
    have hne := List.find?_eq_none.mp hfind kv (List.mem_reverse.mpr h)
    exact absurd (decide_eq_true rfl) hne
  | some kv' =>
    have hname : kv'.1 = kv.1 := by simpa using List.find?_some hfind
    have hmem : kv' ∈ kvs := List.mem_reverse.mp (List.mem_of_find?_eq_some hfind)
    rw [property, hfind, List.inj_on_of_nodup_map hnames hmem h hname]
    rfl

end Lib.Json
