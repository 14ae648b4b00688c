import Mathlib
import E2EAnon.Lib.UrlForm

/-!
# Invite links (`main.ts:955-978`, `:986`, `:1108`)

| here | there |
| --- | --- |
| `generateCode` | `generateCode` (`main.ts:955`), of the bytes `getRandomValues` fills in |
| `buildInviteLink`, `parseInvite` | `main.ts:964`, `:968` |
| `Invite` | `{ token, code }`, of the texts `parseInvite` can return |
| `Page` | `location.origin + location.pathname`: a serialized URL up to its fragment |
| `locationHash` | `location.hash` after a link has been opened |
| `bootstrapFromHash` | what it puts into the field (`main.ts:1108`) |
| `submitted` | what the join form makes of the field (`main.ts:986`) |

`invite_travels`: pasted or opened, a link brings the joiner the token and the code it was made of.
`codes_uniform`: every code is drawn from equally many byte strings.
-/

namespace E2EAnon.Web

open Lib Lib.UrlForm

/-! ## The functions -/

/-- White space and line terminators. -/
def isWhite (u : UInt16) : Bool :=
  [0x9, 0xA, 0xB, 0xC, 0xD, 0x20, 0xA0, 0x1680, 0x2028, 0x2029, 0x202F, 0x205F, 0x3000, 0xFEFF].contains u
    || 0x2000 ≤ u.toNat && u.toNat ≤ 0x200A

/-- A text without the units at its ends that `p` holds for. -/
def strip (p : UInt16 → Bool) (s : JsString) : JsString :=
  ((s.dropWhile p).reverse.dropWhile p).reverse

/-- `String.prototype.trim`. -/
def trim (s : JsString) : JsString := strip isWhite s

def numberSign : UInt16 := 35

/-- The part after the first `#`, or everything. -/
def afterHash (input : JsString) : JsString :=
  if numberSign ∈ input then (input.dropWhile (· ≠ numberSign)).drop 1 else input

@[ext]
structure Invite where
  token      : JsString
  code       : JsString
  token_ne   : token ≠ []
  code_ne    : code ≠ []
  token_text : JsString.isWellFormed token = true
  code_text  : JsString.isWellFormed code = true

def tName : JsString := JsString.lit "t"

def cName : JsString := JsString.lit "c"

def parseInvite (input : JsString) : Option Invite :=
  match ht : getFirst (searchParams (afterHash input)) tName, hc : getFirst (searchParams (afterHash input)) cName with
  | some token, some code =>
    if h : token ≠ [] ∧ code ≠ [] then
      some { token, code, token_ne := h.1, code_ne := h.2, token_text := isWellFormed_of_getFirst ht,
             code_text := isWellFormed_of_getFirst hc }
    else none
  | _, _ => none

structure Page where
  url     : JsString
  visible : ∀ u ∈ url, 0x21 ≤ u.toNat ∧ u.toNat ≤ 0x7E ∧ u ≠ numberSign

/-- `none` is a `URIError`. -/
def buildInviteLink (page : Page) (token code : JsString) : Option JsString := do
  let t ← encodeURIComponent token
  let c ← encodeURIComponent code
  some (page.url ++ JsString.lit "#t=" ++ t ++ JsString.lit "&c=" ++ c)

/-- The fragment percent-encode set. -/
def fragmentByte (b : UInt8) : List UInt8 :=
  if b.toNat < 0x21 ∨ 0x7E < b.toNat ∨ b ∈ [34, 60, 62, 96] then
    [37, hexUpper (b.toNat / 16), hexUpper (b.toNat % 16)]
  else [b]

def isC0OrSpace (u : UInt16) : Bool := u.toNat ≤ 0x20

/-- What the URL parser reads of a link: without what it strips at the ends, and without tabs and
newlines. -/
def urlInput (link : JsString) : JsString :=
  (strip isC0OrSpace link).filter fun u => u ≠ 9 ∧ u ≠ 10 ∧ u ≠ 13

def locationHash (link : JsString) : JsString :=
  match (urlInput link).dropWhile (· ≠ numberSign) with
  | [] | [_] => []
  | _ :: fragment => numberSign :: ofBytes ((JsString.encode fragment).flatMap fragmentByte)

/-- The field's new value, if it gets one. -/
def bootstrapFromHash (page : Page) (locHash : JsString) : Option JsString :=
  if locHash = [] then none
  else (parseInvite locHash).bind fun invite => buildInviteLink page invite.token invite.code

def submitted (field : JsString) : Option Invite := parseInvite (trim field)

/-- `alphabet`. -/
def codeAlphabet : JsString := JsString.lit "ABCDEFGHJKLMNPQRSTUVWXYZ23456789"

/-- `bytes[i] % alphabet.length`. -/
def codeUnit (b : Fin 256) : UInt16 := codeAlphabet.getD (b.val % codeAlphabet.length) 0

def generateCode (bytes : Fin 10 → Fin 256) : JsString := List.ofFn fun i => codeUnit (bytes i)

/-! ## Texts of visible units -/

def Visible (s : JsString) : Prop := ∀ u ∈ s, 0x21 ≤ u.toNat ∧ u.toNat ≤ 0x7E

theorem not_isWhite {u : UInt16} (h : 0x21 ≤ u.toNat ∧ u.toNat ≤ 0x7E) : isWhite u = false := by
  have hall : ∀ n < 0x7F, 0x21 ≤ n → isWhite (UInt16.ofNat n) = false := by decide
  have hu := hall u.toNat (by omega) h.1
  rwa [UInt16.ofNat_toNat] at hu

theorem strip_append {p : UInt16 → Bool} {s ws ws' : JsString} (hs : ∀ u ∈ s, p u = false)
    (hne : s ≠ []) (hws : ∀ u ∈ ws, p u = true) (hws' : ∀ u ∈ ws', p u = true) :
    strip p (ws ++ s ++ ws') = s := by
  have hfront : ∀ (l t : JsString), l ≠ [] → (∀ u ∈ l, p u = false) → (l ++ t).dropWhile p = l ++ t := by
    intro l t hl hu
    obtain ⟨u, l, rfl⟩ := List.exists_cons_of_ne_nil hl
    rw [List.cons_append, List.dropWhile_cons_of_neg (by simp [hu u (by simp)])]
  rw [strip, List.append_assoc, List.dropWhile_append_of_pos hws, hfront s ws' hne hs,
    List.reverse_append, List.dropWhile_append_of_pos fun u hu => hws' u (List.mem_reverse.mp hu)]
  have hback := hfront s.reverse [] (by simpa using hne) fun u hu => hs u (List.mem_reverse.mp hu)
  rw [List.append_nil] at hback
  rw [hback, List.reverse_reverse]

/-! ## The form of a link -/

/-- `t=…&c=…` -/
def linkForm (token code : JsString) : List UInt8 :=
  [38].intercalate ([(tName, token), (cName, code)].map fun p => pairText p.1 p.2)

variable {token code : JsString} {base : JsString} {page : Page}

theorem linkForm_eq (token code : JsString) :
    linkForm token code = 116 :: 61 :: component token ++ 38 :: 99 :: 61 :: component code := by
  have ht : component tName = [116] := by decide
  have hc : component cName = [99] := by decide
  simp [linkForm, pairText, ht, hc]

/-- What the bytes of a form are. -/
theorem linkForm_bytes : ∀ b ∈ linkForm token code,
    0x21 ≤ b.toNat ∧ b.toNat ≤ 0x7E ∧ b ∉ ([34, 35, 60, 62, 96] : List UInt8) := by
  intro b hb
  have hsafe : safe b = true → 0x21 ≤ b.toNat ∧ b.toNat ≤ 0x7E ∧
      b ∉ ([34, 35, 60, 62, 96] : List UInt8) := by
    intro h
    simp only [safe, Bool.and_eq_true, decide_eq_true_eq, Bool.not_eq_true', List.contains_eq_mem,
      decide_eq_false_iff_not] at h
    refine ⟨h.1.1, h.1.2, fun hmem => h.2 ?_⟩
    simp only [List.mem_cons, List.not_mem_nil, or_false] at hmem ⊢
    tauto
  rw [linkForm_eq] at hb
  simp only [List.mem_append, List.mem_cons] at hb
  obtain (rfl | rfl | hb) | rfl | rfl | rfl | hb := hb
  all_goals first
    | exact hsafe (component_safe _ _ hb)
    | decide

theorem encode_ofBytes {bs : List UInt8} (h : ∀ b ∈ bs, b.toNat ≤ 0x7E) :
    JsString.encode (ofBytes bs) = bs := by
  have hascii : JsString.IsAscii (ofBytes bs) := by
    intro u hu
    obtain ⟨b, hb, rfl⟩ := List.mem_map.mp hu
    have hb := h b hb
    rw [UInt16.toNat_ofNat_of_lt' (show b.toNat < 65536 by omega)]
    omega
  rw [JsString.encode_ascii hascii, ofBytes, List.map_map]
  refine (List.map_congr_left fun b hb => ?_).trans (List.map_id _)
  have hb := h b hb
  simp only [Function.comp, UInt16.toNat_ofNat_of_lt' (show b.toNat < 65536 by omega),
    UInt8.ofNat_toNat, id]

theorem buildInviteLink_eq (page : Page) (ht : JsString.isWellFormed token = true)
    (hc : JsString.isWellFormed code = true) :
    buildInviteLink page token code = some (page.url ++ numberSign :: ofBytes (linkForm token code)) := by
  have ht' : JsString.lit "#t=" = [35, 116, 61] := by decide
  have hc' : JsString.lit "&c=" = [38, 99, 61] := by decide
  simp [buildInviteLink, encodeURIComponent, ht, hc, ht', hc', linkForm_eq, ofBytes, numberSign]

theorem parseInvite_eq_some {input : JsString} {invite : Invite} :
    parseInvite input = some invite ↔
      getFirst (searchParams (afterHash input)) tName = some invite.token ∧
        getFirst (searchParams (afterHash input)) cName = some invite.code := by
  unfold parseInvite
  split
  · rename_i token code ht hc
    split
    · simp [ht, hc, Invite.ext_iff]
    · rename_i hne
      simp only [ht, hc, reduceCtorEq, Option.some.injEq, false_iff]
      rintro ⟨rfl, rfl⟩
      exact hne ⟨invite.token_ne, invite.code_ne⟩
  · rename_i hnone
    simp only [reduceCtorEq, false_iff]
    rintro ⟨ht, hc⟩
    exact hnone _ _ ht hc

theorem parseInvite_link (hbase : numberSign ∉ base) (invite : Invite) :
    parseInvite (base ++ numberSign :: ofBytes (linkForm invite.token invite.code)) = some invite := by
  have hafter : afterHash (base ++ numberSign :: ofBytes (linkForm invite.token invite.code)) =
      ofBytes (linkForm invite.token invite.code) := by
    have hall : ∀ u ∈ base, decide (u ≠ numberSign) = true := fun u hu =>
      decide_eq_true fun h => hbase (h ▸ hu)
    rw [afterHash, if_pos (by simp), List.dropWhile_append_of_pos hall]
    simp
  have hparams : searchParams (ofBytes (linkForm invite.token invite.code)) =
      [(tName, invite.token), (cName, invite.code)] := by
    have hhead : (ofBytes (linkForm invite.token invite.code)).head? ≠ some 63 := by
      simp [linkForm_eq, ofBytes]
    rw [searchParams, if_neg hhead, encode_ofBytes fun b hb => (linkForm_bytes b hb).2.1]
    refine parse_pairs ?_ (by simp)
    have ht : JsString.isWellFormed tName = true := by decide
    have hc : JsString.isWellFormed cName = true := by decide
    simp [ht, hc, invite.token_text, invite.code_text]
  have hne : tName ≠ cName := by decide
  rw [parseInvite_eq_some, hafter, hparams]
  simp [getFirst, hne]

/-- The link of a page. -/
def Page.link (page : Page) (token code : JsString) : JsString :=
  page.url ++ numberSign :: ofBytes (linkForm token code)

theorem Page.noFragment (page : Page) : numberSign ∉ page.url := fun h => (page.visible _ h).2.2 rfl

theorem visible_link (page : Page) (token code : JsString) : Visible (page.link token code) := by
  intro u hu
  obtain hu | rfl | hu : u ∈ page.url ∨ u = numberSign ∨ u ∈ ofBytes (linkForm token code) := by
    simpa [Page.link] using hu
  · exact ⟨(page.visible u hu).1, (page.visible u hu).2.1⟩
  · decide
  · obtain ⟨b, hb, rfl⟩ := List.mem_map.mp hu
    have hb := linkForm_bytes b hb
    rw [UInt16.toNat_ofNat_of_lt' (show b.toNat < 65536 by omega)]
    exact ⟨hb.1, hb.2.1⟩

/-- White space around a link is dropped, and nothing else. -/
theorem trim_link (page : Page) (token code : JsString) {ws ws' : JsString}
    (hws : ∀ u ∈ ws, isWhite u = true) (hws' : ∀ u ∈ ws', isWhite u = true) :
    trim (ws ++ page.link token code ++ ws') = page.link token code :=
  strip_append (fun u hu => not_isWhite (visible_link page token code u hu)) (by simp [Page.link])
    hws hws'

theorem urlInput_link (page : Page) (token code : JsString) :
    urlInput (page.link token code) = page.link token code := by
  have hvisible := visible_link page token code
  have hstrip : strip isC0OrSpace ([] ++ page.link token code ++ []) = page.link token code :=
    strip_append (fun u hu => decide_eq_false (by have := hvisible u hu; omega))
      (by simp [Page.link]) (by simp) (by simp)
  rw [List.nil_append, List.append_nil] at hstrip
  rw [urlInput, hstrip, List.filter_eq_self]
  intro u hu
  have hu := hvisible u hu
  refine decide_eq_true ⟨?_, ?_, ?_⟩ <;> rintro rfl <;> revert hu <;> decide

/-- Nothing in the fragment of a link is escaped again. -/
theorem locationHash_link (page : Page) (token code : JsString) :
    locationHash (page.link token code) = numberSign :: ofBytes (linkForm token code) := by
  have hescape : (linkForm token code).flatMap fragmentByte = linkForm token code := by
    refine (List.flatMap_congr fun b hb => ?_).trans (List.flatMap_singleton' _)
    obtain ⟨hlow, hup, hset⟩ := linkForm_bytes b hb
    refine if_neg ?_
    rintro (h | h | h)
    · omega
    · omega
    · simp only [List.mem_cons, List.not_mem_nil, or_false] at h hset
      tauto
  have hurl : ∀ u ∈ page.url, decide (u ≠ numberSign) = true := fun u hu =>
    decide_eq_true fun h => page.noFragment (h ▸ hu)
  obtain ⟨u, form, hcons⟩ : ∃ u form, ofBytes (linkForm token code) = u :: form :=
    ⟨116, _, by rw [linkForm_eq]; rfl⟩
  have hdrop : (page.link token code).dropWhile (· ≠ numberSign) = numberSign :: u :: form := by
    rw [Page.link, List.dropWhile_append_of_pos hurl, hcons]
    simp
  rw [locationHash, urlInput_link, hdrop]
  simp only
  rw [← hcons, encode_ofBytes fun b hb => (linkForm_bytes b hb).2.1, hescape]

def samplePage : Page where
  url := JsString.lit "https://relay.test/"
  visible := List.all_iff_forall_prop.mp (by decide)

def sampleInvite : Invite where
  token := JsString.lit "mfrggzdfmztwq2lk"
  code := JsString.lit "K7QX2MPT9A"
  token_ne := by decide
  code_ne := by decide
  token_text := by decide
  code_text := by decide

/-- **A link brings the joiner the invite it was made of**: pasted into the field, with white space
around it, or opened, which fills in the field. -/
theorem invite_travels (owner joiner : Page) (invite : Invite) {ws ws' : JsString}
    (hws : ∀ u ∈ ws, isWhite u = true) (hws' : ∀ u ∈ ws', isWhite u = true) :
    ∃ link field, buildInviteLink owner invite.token invite.code = some link ∧
      submitted (ws ++ link ++ ws') = some invite ∧
      bootstrapFromHash joiner (locationHash link) = some field ∧ submitted field = some invite := by
  have hbuilt : ∀ page : Page, buildInviteLink page invite.token invite.code =
      some (page.link invite.token invite.code) :=
    fun page => buildInviteLink_eq page invite.token_text invite.code_text
  have hread : ∀ page : Page, parseInvite (page.link invite.token invite.code) = some invite :=
    fun page => parseInvite_link page.noFragment invite
  have hopened : bootstrapFromHash joiner (locationHash (owner.link invite.token invite.code)) =
      some (joiner.link invite.token invite.code) := by
    have hhash : parseInvite (numberSign :: ofBytes (linkForm invite.token invite.code)) =
        some invite := parseInvite_link List.not_mem_nil invite
    rw [locationHash_link, bootstrapFromHash, if_neg (by simp), hhash, Option.bind_some, hbuilt]
  have hfield : submitted (joiner.link invite.token invite.code) = some invite := by
    have hws₀ : ∀ u ∈ ([] : JsString), isWhite u = true := by simp
    have htrim := trim_link joiner invite.token invite.code hws₀ hws₀
    rw [List.nil_append, List.append_nil] at htrim
    rw [submitted, htrim, hread]
  refine ⟨_, _, hbuilt owner, ?_, hopened, hfield⟩
  rw [submitted, trim_link owner _ _ hws hws', hread]

theorem invite_travels_sample : ∃ link field,
    buildInviteLink samplePage sampleInvite.token sampleInvite.code = some link ∧
      submitted (JsString.lit " " ++ link ++ JsString.lit "\n") = some sampleInvite ∧
      bootstrapFromHash samplePage (locationHash link) = some field ∧
      submitted field = some sampleInvite :=
  invite_travels samplePage samplePage sampleInvite (List.all_eq_true.mp (by decide))
    (List.all_eq_true.mp (by decide))

/-! ## Codes -/

theorem codeUnit_mem (b : Fin 256) : codeUnit b ∈ codeAlphabet := by
  have hlt : b.val % codeAlphabet.length < codeAlphabet.length := Nat.mod_lt _ (by decide)
  rw [codeUnit, List.getD_eq_getElem?_getD, List.getElem?_eq_getElem hlt]
  exact List.getElem_mem hlt

/-- 256 is a multiple of 32: each letter is that of eight bytes. -/
theorem card_codeUnit (u : UInt16) :
    (Finset.univ.filter fun b => codeUnit b = u).card = if u ∈ codeAlphabet then 8 else 0 := by
  split
  · rename_i hu
    have hall : codeAlphabet.all fun u => (Finset.univ.filter fun b => codeUnit b = u).card = 8 := by
      decide +kernel
    exact List.all_iff_forall_prop.mp hall u hu
  · rename_i hu
    rw [Finset.card_eq_zero, Finset.filter_eq_empty_iff]
    rintro b - rfl
    exact hu (codeUnit_mem b)

theorem generateCode_eq_iff {s : JsString} (hlen : s.length = 10) (bytes : Fin 10 → Fin 256) :
    generateCode bytes = s ↔ ∀ i : Fin 10, codeUnit (bytes i) = s[i.val] := by
  constructor
  · rintro rfl i
    simp only [generateCode, List.getElem_ofFn]
  · intro h
    refine List.ext_getElem (by simp [generateCode, hlen]) fun i hi _ => ?_
    exact (List.getElem_ofFn _).trans (h ⟨i, by simpa [hlen] using ‹i < s.length›⟩)

/-- **Every code is drawn from equally many byte strings**, and nothing else is drawn. -/
theorem codes_uniform (s : JsString) :
    (Finset.univ.filter fun bytes => generateCode bytes = s).card =
      if s.length = 10 ∧ ∀ u ∈ s, u ∈ codeAlphabet then 8 ^ 10 else 0 := by
  by_cases hlen : s.length = 10
  · have hset : (Finset.univ.filter fun bytes => generateCode bytes = s) =
        Fintype.piFinset fun i : Fin 10 => Finset.univ.filter fun b => codeUnit b = s[i.val] := by
      ext bytes
      simp only [Finset.mem_filter, Finset.mem_univ, true_and, Fintype.mem_piFinset,
        generateCode_eq_iff hlen]
    rw [hset, Fintype.card_piFinset]
    simp only [card_codeUnit, hlen, true_and]
    split
    · rename_i hmem
      have hunit : ∀ i : Fin 10, s[i.val] ∈ codeAlphabet := fun i => hmem _ (List.getElem_mem _)
      simp only [hunit, if_true, Finset.prod_const, Finset.card_univ, Fintype.card_fin]
    · rename_i hmem
      obtain ⟨u, hu, hne⟩ : ∃ u ∈ s, u ∉ codeAlphabet := by simpa using hmem
      obtain ⟨i, hi, rfl⟩ := List.mem_iff_getElem.mp hu
      have hzero : (if s[i] ∈ codeAlphabet then 8 else 0) = 0 := if_neg hne
      exact Finset.prod_eq_zero (Finset.mem_univ (⟨i, hlen ▸ hi⟩ : Fin 10)) hzero
  · rw [if_neg fun h => hlen h.1, Finset.card_eq_zero, Finset.filter_eq_empty_iff]
    rintro bytes - rfl
    exact hlen (by simp [generateCode])

end E2EAnon.Web
