import Mathlib.Data.Int.CardIntervalMod
import E2EAnon.Web.Spake2

/-!
# What the first SPAKE2 message tells of the code (`spake2.ts:67-85`, `:172-179`)

The relay sees the first frame of both sides. `randomScalar` draws 48 bytes and reduces them modulo
the order `n` of the group, so a scalar is that of `2^384 / n` byte strings or one more, and 1 also
of those that zero would have (`scalarDraws_range`). Under a code a message is that of one scalar, or
of none where the masked seed is the message itself. `first_message_hides`: whatever the message,
every other code sends it nearly equally often.
-/

namespace E2EAnon.Web

open Lib

/-! ## Byte strings as numbers -/

theorem bytesToBigBE_append (b : Bytes) (c : UInt8) :
    bytesToBigBE (b ++ [c]) = bytesToBigBE b * 256 + c.toNat := by
  have hc : c.toNat < 2 ^ 8 := c.toNat_lt
  rw [bytesToBigBE, List.foldl_append, List.foldl_cons, List.foldl_nil, ← bytesToBigBE,
    ← Nat.shiftLeft_add_eq_or_of_lt hc, Nat.shiftLeft_eq]

theorem bigToBytesBE_bytesToBigBE (b : Bytes) : bigToBytesBE (bytesToBigBE b) b.length = b := by
  induction b using List.reverseRecOn with
  | nil => rfl
  | append_singleton b c ih =>
    have hc := c.toNat_lt
    have hlow : (bytesToBigBE b * 256 + c.toNat) &&& 0xff = c.toNat := by
      rw [show 0xff = 2 ^ 8 - 1 from rfl, Nat.and_two_pow_sub_one_eq_mod]
      omega
    have hhigh : (bytesToBigBE b * 256 + c.toNat) >>> 8 = bytesToBigBE b := by
      rw [Nat.shiftRight_eq_div_pow]
      omega
    rw [bytesToBigBE_append, List.length_append, List.length_singleton, bigToBytesBE, littleEndian,
      hlow, hhigh, List.reverse_cons, ← bigToBytesBE, ih, UInt8.ofNat_toNat]

theorem bytesToBigBE_lt (b : Bytes) : bytesToBigBE b < 256 ^ b.length := by
  induction b using List.reverseRecOn with
  | nil => decide
  | append_singleton b c ih =>
    have hc := c.toNat_lt
    rw [bytesToBigBE_append, List.length_append, List.length_singleton, pow_succ]
    omega

/-- What `getRandomValues` fills in. -/
def drawn {k : Nat} (f : Fin k → Fin 256) : Bytes := List.ofFn fun i => UInt8.ofNat (f i).val

theorem length_drawn {k : Nat} (f : Fin k → Fin 256) : (drawn f).length = k := List.length_ofFn

theorem drawn_injective {k : Nat} : Function.Injective (drawn (k := k)) := by
  intro f f' h
  funext i
  have hi := congrFun (List.ofFn_injective h) i
  have hval : ∀ x : Fin 256, (UInt8.ofNat x.val).toNat = x.val := fun x =>
    UInt8.toNat_ofNat_of_lt' x.isLt
  have hnat := congrArg UInt8.toNat hi
  rw [hval, hval] at hnat
  exact Fin.ext hnat

/-- The byte strings of a length are the numbers below a power of 256. -/
theorem card_drawn (k : Nat) (p : Nat → Prop) [DecidablePred p] :
    (Finset.univ.filter fun f : Fin k → Fin 256 => p (bytesToBigBE (drawn f))).card =
      (256 ^ k).count p := by
  let value (f : Fin k → Fin 256) : Nat := bytesToBigBE (drawn f)
  have hinj : Function.Injective value := by
    intro f f' h
    refine drawn_injective ?_
    rw [← bigToBytesBE_bytesToBigBE (drawn f), ← bigToBytesBE_bytesToBigBE (drawn f'), length_drawn,
      length_drawn]
    exact congrArg (bigToBytesBE · k) h
  have himage : Finset.univ.image value = Finset.range (256 ^ k) := by
    refine Finset.eq_of_subset_of_card_le ?_ ?_
    · intro v hv
      obtain ⟨f, -, rfl⟩ := Finset.mem_image.mp hv
      have hlt := bytesToBigBE_lt (drawn f)
      rw [length_drawn] at hlt
      exact Finset.mem_range.mpr hlt
    · rw [Finset.card_image_of_injective _ hinj, Finset.card_range]
      simp
  rw [Nat.count_eq_card_filter_range, ← himage, Finset.filter_image,
    Finset.card_image_of_injective _ hinj]

namespace Noble

variable {G : Type} [AddCommGroup G] {C : Noble G}

/-! ## The scalar -/

/-- The number of byte strings `randomScalar` can draw. -/
def drawCount : Nat := 256 ^ (scalarBytes + 16)

/-- How often they give the scalar. -/
def scalarDraws (C : Noble G) (s : Nat) : Nat :=
  (Finset.univ.filter fun f : Fin (scalarBytes + 16) → Fin 256 => C.randomScalar (drawn f) = s).card

/-- How often they have the residue. -/
theorem count_residue (hC : C.Lawful) {r : Nat} (hr : r < C.ORDER) :
    drawCount / C.ORDER ≤ drawCount.count (· % C.ORDER = r) ∧
      drawCount.count (· % C.ORDER = r) ≤ drawCount / C.ORDER + 1 := by
  have hcount := Nat.count_modEq_card drawCount (Nat.zero_lt_of_lt hC.order) r
  simp only [Nat.ModEq, Nat.mod_eq_of_lt hr] at hcount
  rw [hcount]
  split <;> omega

omit [AddCommGroup G] in
/-- `s` is the scalar of the numbers with its residue, and 1 that of those with none too. -/
theorem scalarDraws_eq (C : Noble G) {s : Nat} (hs : 0 < s) :
    C.scalarDraws s = drawCount.count fun v => v % C.ORDER = s ∨ s = 1 ∧ v % C.ORDER = 0 := by
  have hscalar : ∀ f : Fin (scalarBytes + 16) → Fin 256, C.randomScalar (drawn f) = s ↔
      bytesToBigBE (drawn f) % C.ORDER = s ∨ s = 1 ∧ bytesToBigBE (drawn f) % C.ORDER = 0 := by
    intro f
    unfold randomScalar
    dsimp only
    split <;> omega
  simp only [scalarDraws, hscalar]
  exact card_drawn (scalarBytes + 16) fun v => v % C.ORDER = s ∨ s = 1 ∧ v % C.ORDER = 0

theorem scalarDraws_range (hC : C.Lawful) {s : Nat} (hs : 0 < s ∧ s < C.ORDER) :
    drawCount / C.ORDER ≤ C.scalarDraws s ∧ C.scalarDraws s ≤ 2 * (drawCount / C.ORDER + 1) := by
  have hresidue := count_residue hC hs.2
  have hzero := count_residue hC (Nat.zero_lt_of_lt hC.order)
  have hlow : drawCount.count (· % C.ORDER = s) ≤
      drawCount.count fun v => v % C.ORDER = s ∨ s = 1 ∧ v % C.ORDER = 0 :=
    Nat.count_mono_left fun _ _ h => .inl h
  have hup : drawCount.count (fun v => v % C.ORDER = s ∨ s = 1 ∧ v % C.ORDER = 0) ≤
      drawCount.count (· % C.ORDER = s) + drawCount.count fun v => s = 1 ∧ v % C.ORDER = 0 := by
    simp only [Nat.count_eq_card_filter_range, Finset.filter_or]
    exact Finset.card_union_le _ _
  have hone : (drawCount.count fun v => s = 1 ∧ v % C.ORDER = 0) ≤ drawCount.count (· % C.ORDER = 0) :=
    Nat.count_mono_left fun _ _ h => h.2
  rw [scalarDraws_eq C hs.1]
  omega

/-! ## The message -/

/-- The base point generates the group, and `ORDER` is its order. -/
def Generates (C : Noble G) : Prop := ∀ g : G, ∃! k, k < C.ORDER ∧ k • C.BASE = g

/-- The message in the first frame of a session. -/
def firstMessage (C : Noble G) (role : PakeRole) (code handshakeId : JsString) (random : Bytes) :
    Option Bytes :=
  (C.start role (C.deriveW code (utf8 handshakeId)) (idA handshakeId) (idB handshakeId) []
    (C.randomScalar random)).map (·.2)

theorem handshakeSession_sent (role : PakeRole) (code handshakeId : JsString) (random : Bytes) :
    (C.handshakeSession role code handshakeId random).map (·.sent) =
      (C.firstMessage role code handshakeId random).map fun m => [.m m] := by
  unfold handshakeSession firstMessage
  dsimp only
  generalize C.start _ _ _ _ _ _ = r
  cases r with
  | none => rfl
  | some r => rfl

/-- How often a session of the code sends the message. -/
def messageDraws (C : Noble G) (role : PakeRole) (code handshakeId : JsString) (message : Bytes) : Nat :=
  (Finset.univ.filter fun f : Fin (scalarBytes + 16) → Fin 256 =>
    C.firstMessage role code handshakeId (drawn f) = some message).card

/-- Under a code, the scalars of a message are those of its point less the masked seed. -/
theorem firstMessage_iff (hC : C.Lawful) {role : PakeRole} {code handshakeId : JsString} {g : G}
    {message : Bytes} (hm : C.toBytes g = some message) (random : Bytes) :
    C.firstMessage role code handshakeId random = some message ↔
      C.randomScalar random • C.BASE = g - C.deriveW code (utf8 handshakeId) • C.seed role := by
  have hw := deriveW_lt hC code (utf8 handshakeId)
  have hs := randomScalar_range hC random
  have hown : C.ownPoint role (C.deriveW code (utf8 handshakeId)) (C.randomScalar random) = g ↔
      C.randomScalar random • C.BASE = g - C.deriveW code (utf8 handshakeId) • C.seed role := by
    rw [ownPoint, eq_sub_iff_add_eq']
  rw [← hown, firstMessage]
  constructor
  · intro h
    obtain ⟨⟨st, m⟩, hstart, rfl⟩ := Option.map_eq_some_iff.mp h
    have hread := hC.fromBytes _ _ (start_some hw hs hstart).1
    rw [hC.fromBytes _ _ hm] at hread
    exact (Option.some.inj hread).symm
  · intro h
    rw [start_eq hw hs (h ▸ hm), Option.map_some]

/-- **The first message tells a code from another next to nothing.** A code whose masked seed is the
point of the message never sends it; every other sends it for about one in `ORDER` of the byte
strings, whatever the code. -/
theorem first_message_hides (hC : C.Lawful) (hG : C.Generates) (role : PakeRole)
    (code handshakeId : JsString) {g : G} {message : Bytes} (hm : C.toBytes g = some message) :
    (C.deriveW code (utf8 handshakeId) • C.seed role = g →
      C.messageDraws role code handshakeId message = 0) ∧
    (C.deriveW code (utf8 handshakeId) • C.seed role ≠ g →
      drawCount / C.ORDER ≤ C.messageDraws role code handshakeId message ∧
        C.messageDraws role code handshakeId message ≤ 2 * (drawCount / C.ORDER + 1)) := by
  obtain ⟨k, ⟨hk, hkg⟩, huniq⟩ := hG (g - C.deriveW code (utf8 handshakeId) • C.seed role)
  have hscalar : ∀ random, C.firstMessage role code handshakeId random = some message ↔
      C.randomScalar random = k := by
    intro random
    rw [firstMessage_iff hC hm]
    exact ⟨fun h => huniq _ ⟨(randomScalar_range hC random).2, h⟩, fun h => h ▸ hkg⟩
  have hdraws : C.messageDraws role code handshakeId message = C.scalarDraws k := by
    simp only [messageDraws, scalarDraws, hscalar]
  refine ⟨fun heq => ?_, fun hne => ?_⟩
  · have hk0 : 0 = k := huniq 0 ⟨Nat.zero_lt_of_lt hC.order, by rw [heq, sub_self, zero_smul]⟩
    rw [messageDraws, Finset.card_eq_zero, Finset.filter_eq_empty_iff]
    intro f _ hf
    have hpos := (randomScalar_range hC (drawn f)).1
    rw [(hscalar _).mp hf] at hpos
    omega
  · have hk0 : k ≠ 0 := by
      rintro rfl
      rw [zero_smul] at hkg
      exact hne (sub_eq_zero.mp hkg.symm).symm
    rw [hdraws]
    exact scalarDraws_range hC ⟨Nat.pos_of_ne_zero hk0, hk⟩

theorem small_generates : small.Generates := by
  intro g
  refine ⟨g.val, ⟨ZMod.val_lt g, ?_⟩, ?_⟩
  · change g.val • (1 : ZMod 11) = g
    rw [nsmul_one, ZMod.natCast_zmod_val]
  · rintro k ⟨hk, rfl⟩
    have hlt : k < 11 := hk
    change k = (k • (1 : ZMod 11)).val
    rw [nsmul_one, ZMod.val_natCast, Nat.mod_eq_of_lt hlt]

/-- The message of the point 5: under one code it is the masked seed itself, under the other not. -/
theorem first_message_hides_sample :
    small.messageDraws .A (JsString.lit "ABCDE23453") (JsString.lit "handshake-id-123") [5] = 0 ∧
    drawCount / small.ORDER ≤
      small.messageDraws .A (JsString.lit "ABCDE23456") (JsString.lit "handshake-id-123") [5] ∧
    small.messageDraws .A (JsString.lit "ABCDE23456") (JsString.lit "handshake-id-123") [5] ≤
      2 * (drawCount / small.ORDER + 1) := by
  have hm : small.toBytes 5 = some [5] := by decide
  have h (code : JsString) := first_message_hides small_lawful small_generates .A code
    (JsString.lit "handshake-id-123") hm
  exact ⟨(h _).1 (by decide +kernel), (h _).2 (by decide +kernel)⟩

end Noble
end E2EAnon.Web
