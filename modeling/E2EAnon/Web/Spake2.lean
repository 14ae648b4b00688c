import Mathlib.Data.List.Forall2
import Mathlib.Data.ZMod.Basic
import E2EAnon.Lib.JsString
import E2EAnon.Web.Converge

/-!
# SPAKE2 (`web/src/spake2.ts`) and the convergence of a handshake

| here | there |
| --- | --- |
| `Noble`            | what `spake2.ts` takes from `@noble/curves` and `@noble/hashes`, and `String.prototype.normalize` |
| `Noble.Lawful`     | what it relies on: points other than the identity are written and read back, and the order of the group is not 1 |
| `multiply`         | `Point.multiply`, which throws for a scalar that is not between 1 and the order |
| `start`, `finish`  | `spake2.ts:67`, `:86` |
| `handshakeSession` | the constructor of `HandshakeSession` (`handshake.ts:32`), with the 48 bytes `randomScalar` draws |

Functions return `none` where the source throws. `agreement` is one exchange of the two messages;
`handshake_converges` is the handshake of two sessions made with one code and one id, under every
schedule of their frames.
-/

namespace E2EAnon.Web

open Lib

abbrev Bytes := List UInt8

/-! ## Byte strings (`spake2.ts:178-227`) -/

def utf8 (s : JsString) : Bytes := JsString.encode s

/-- The `k` low bytes of `n`, the lowest first. -/
def littleEndian (n : Nat) : Nat → Bytes
  | 0 => []
  | k + 1 => UInt8.ofNat (n &&& 0xff) :: littleEndian (n >>> 8) k

/-- A byte string after its 8-byte little-endian length. -/
def lv (b : Bytes) : Bytes := littleEndian b.length 8 ++ b

def bytesToBigBE (b : Bytes) : Nat := b.foldl (fun n byte => (n <<< 8) ||| byte.toNat) 0

def bigToBytesBE (n length : Nat) : Bytes := (littleEndian n length).reverse

def timingSafeEqual (a b : Bytes) : Bool :=
  if a.length ≠ b.length then false
  else (a.zip b).foldl (fun diff p => diff ||| (p.1 ^^^ p.2)) 0 = 0

theorem foldl_diff_eq_zero (l : List (UInt8 × UInt8)) (d : UInt8) :
    l.foldl (fun diff p => diff ||| (p.1 ^^^ p.2)) d = 0 ↔ d = 0 ∧ ∀ p ∈ l, p.1 = p.2 := by
  induction l generalizing d with
  | nil => simp
  | cons p l ih =>
    rw [List.foldl_cons, ih, UInt8.or_eq_zero_iff, UInt8.xor_eq_zero_iff]
    simp [and_assoc]

/-- It compares. -/
theorem timingSafeEqual_iff {a b : Bytes} : timingSafeEqual a b = true ↔ a = b := by
  unfold timingSafeEqual
  split
  · rename_i hlen
    simp only [Bool.false_eq_true, false_iff]
    exact fun h => hlen (congrArg List.length h)
  · rename_i hlen
    rw [decide_eq_true_eq, foldl_diff_eq_zero]
    have hlen : a.length = b.length := not_not.mp hlen
    rw [← List.forall₂_eq_eq_eq, List.forall₂_iff_zip]
    simp [hlen]

/-! ## The primitives -/

structure Noble (G : Type) where
  BASE      : G
  M         : G
  N         : G
  ORDER     : Nat
  toBytes   : G → Option Bytes
  fromBytes : Bytes → Option G
  normalize : JsString → JsString
  /-- The password, the salt and `dkLen`. -/
  scrypt    : Bytes → Bytes → Nat → Bytes
  sha256    : Bytes → Bytes
  /-- The input key, the salt, the info and the length. -/
  hkdf      : Bytes → Bytes → Bytes → Nat → Bytes
  hmac      : Bytes → Bytes → Bytes

namespace Noble

variable {G : Type} [AddCommGroup G] (C : Noble G)

structure Lawful : Prop where
  order     : 1 < C.ORDER
  toBytes   : ∀ g, g ≠ 0 → (C.toBytes g).isSome = true
  fromBytes : ∀ g b, C.toBytes g = some b → C.fromBytes b = some g

def multiply (g : G) (k : Nat) : Option G :=
  if 0 < k ∧ k < C.ORDER then some (k • g) else none

/-! ## The protocol -/

/-- `SCALAR_BYTES`. -/
def scalarBytes : Nat := 32

structure State where
  role   : PakeRole
  scalar : Nat
  w      : Nat
  own    : Bytes
  idA    : Bytes
  idB    : Bytes
  aad    : Bytes

structure Result where
  ke           : Bytes
  confirm      : Bytes
  /-- What `verifyPeer` compares with. -/
  expectedPeer : Bytes
  transcript   : Bytes
  ka           : Bytes
  kcA          : Bytes
  kcB          : Bytes
  cA           : Bytes
  cB           : Bytes

def Result.verifyPeer (r : Result) (peerConfirm : Bytes) : Bool :=
  timingSafeEqual peerConfirm r.expectedPeer

/-- `M` for the owner, `N` for the joiner. -/
def seed : PakeRole → G
  | .A => C.M
  | .B => C.N

def mul (g : G) (k : Nat) : Option G := if k = 0 then some 0 else C.multiply g k

def randomScalar (b : Bytes) : Nat :=
  let s := bytesToBigBE b % C.ORDER
  if s = 0 then 1 else s

def deriveW (code : JsString) (salt : Bytes) : Nat :=
  let pw := utf8 (C.normalize code)
  bytesToBigBE (C.scrypt pw salt (scalarBytes + 16)) % C.ORDER

def start (role : PakeRole) (w : Nat) (idA idB aad : Bytes) (scalar : Nat) :
    Option (State × Bytes) := do
  let X ← C.multiply C.BASE scalar
  let wSeed ← C.mul (C.seed role) w
  let message ← C.toBytes (wSeed + X)
  some ({ role, scalar, w, own := message, idA, idB, aad }, message)

/-- The key schedule and the confirmations (`spake2.ts:110-127`). -/
def keySchedule (role : PakeRole) (aad TT : Bytes) : Result :=
  let h := C.sha256 TT
  let ke := h.take 16
  let ka := (h.drop 16).take 16
  let kc := C.hkdf ka [] (utf8 (JsString.lit "ConfirmationKeys") ++ aad) 32
  let kcA := kc.take 16
  let kcB := (kc.drop 16).take 16
  let cA := C.hmac kcA TT
  let cB := C.hmac kcB TT
  match role with
  | .A => { ke, confirm := cA, expectedPeer := cB, transcript := TT, ka, kcA, kcB, cA, cB }
  | .B => { ke, confirm := cB, expectedPeer := cA, transcript := TT, ka, kcA, kcB, cA, cB }

def finish (state : State) (peerMessage : Bytes) : Option Result := do
  let peer ← C.fromBytes peerMessage
  let wSeed ← C.mul (C.seed state.role.other) state.w
  let K ← C.multiply (peer - wSeed) state.scalar
  let (pA, pB) := match state.role with
    | .A => (state.own, peerMessage)
    | .B => (peerMessage, state.own)
  let KBytes ← C.toBytes K
  let TT := lv state.idA ++ lv state.idB ++ lv pA ++ lv pB ++ lv KBytes ++
    lv (bigToBytesBE state.w scalarBytes)
  some (C.keySchedule state.role state.aad TT)

/-- What `handshake.ts` uses of it. -/
def pake : Pake where
  State := State
  Result := Result
  Point := Bytes
  Mac := Bytes
  Key := Bytes
  finish := C.finish
  confirm := Result.confirm
  verifyPeer := Result.verifyPeer
  ke := Result.ke

def idA (handshakeId : JsString) : Bytes := utf8 (JsString.lit "anonchat-owner:" ++ handshakeId)

def idB (handshakeId : JsString) : Bytes := utf8 (JsString.lit "anonchat-joiner:" ++ handshakeId)

def handshakeSession (role : PakeRole) (code handshakeId : JsString) (random : Bytes) :
    Option (Side C.pake) := do
  let w := C.deriveW code (utf8 handshakeId)
  let (state, message) ← C.start role w (idA handshakeId) (idB handshakeId) [] (C.randomScalar random)
  some (Side.new state message)

/-! ## Both sides compute the same -/

variable {C}

theorem mul_eq {g : G} {k : Nat} (hk : k < C.ORDER) : C.mul g k = some (k • g) := by
  unfold mul multiply
  split
  · rename_i h0
    simp [h0]
  · rename_i h0
    simp [Nat.pos_of_ne_zero h0, hk]

theorem randomScalar_range (hC : C.Lawful) (b : Bytes) :
    0 < C.randomScalar b ∧ C.randomScalar b < C.ORDER := by
  have horder := hC.order
  unfold randomScalar
  dsimp only
  split
  · exact ⟨Nat.one_pos, horder⟩
  · rename_i h0
    exact ⟨Nat.pos_of_ne_zero h0, Nat.mod_lt _ (by omega)⟩

theorem deriveW_lt (hC : C.Lawful) (code : JsString) (salt : Bytes) :
    C.deriveW code salt < C.ORDER :=
  Nat.mod_lt _ (Nat.zero_lt_of_lt hC.order)

/-- The point a side sends. -/
def ownPoint (C : Noble G) (role : PakeRole) (w scalar : Nat) : G :=
  w • C.seed role + scalar • C.BASE

/-- The point both sides arrive at. -/
def sharedPoint (C : Noble G) (scalar : PakeRole → Nat) : G := (scalar .A * scalar .B) • C.BASE

/-- No point that is computed is the identity. -/
structure NoIdentity (C : Noble G) (w : Nat) (scalar : PakeRole → Nat) : Prop where
  own    : ∀ r, C.ownPoint r w (scalar r) ≠ 0
  shared : C.sharedPoint scalar ≠ 0

theorem start_eq {role : PakeRole} {w scalar : Nat} {idA idB aad message : Bytes}
    (hw : w < C.ORDER) (hs : 0 < scalar ∧ scalar < C.ORDER)
    (hm : C.toBytes (C.ownPoint role w scalar) = some message) :
    C.start role w idA idB aad scalar =
      some ({ role, scalar, w, own := message, idA, idB, aad }, message) := by
  unfold ownPoint at hm
  simp [start, multiply, hs, mul_eq hw, hm]

/-- With the seed of the peer removed, what is left of its point is its scalar's. -/
theorem unmask (role : PakeRole) (w : Nat) (scalar : PakeRole → Nat) :
    scalar role • (C.ownPoint role.other w (scalar role.other) - w • C.seed role.other) =
      C.sharedPoint scalar := by
  rw [ownPoint, add_sub_cancel_left, ← mul_nsmul']
  cases role with
  | A => rfl
  | B => exact congrArg (· • C.BASE) (Nat.mul_comm _ _)

/-- The transcript of the two points. -/
def transcript (idA idB pA pB K : Bytes) (w : Nat) : Bytes :=
  lv idA ++ lv idB ++ lv pA ++ lv pB ++ lv K ++ lv (bigToBytesBE w scalarBytes)

/-- `finish` with the message of the other side. -/
theorem finish_map (hC : C.Lawful) {w : Nat} {scalar : PakeRole → Nat} {own : PakeRole → Bytes}
    (idA idB aad : Bytes) (hw : w < C.ORDER) (hs : ∀ r, 0 < scalar r ∧ scalar r < C.ORDER)
    (hown : ∀ r, C.toBytes (C.ownPoint r w (scalar r)) = some (own r)) (r : PakeRole) :
    C.finish { role := r, scalar := scalar r, w, own := own r, idA, idB, aad } (own r.other) =
      (C.toBytes (C.sharedPoint scalar)).map fun K =>
        C.keySchedule r aad (transcript idA idB (own .A) (own .B) K w) := by
  have hpeer : C.fromBytes (own r.other) = some (C.ownPoint r.other w (scalar r.other)) :=
    hC.fromBytes _ _ (hown r.other)
  have hmul : C.multiply (C.ownPoint r.other w (scalar r.other) - w • C.seed r.other) (scalar r) =
      some (C.sharedPoint scalar) := by
    rw [multiply, if_pos (hs r), unmask]
  simp only [finish, hpeer, mul_eq hw, hmul, Option.bind_eq_bind, Option.bind_some]
  cases C.toBytes (C.sharedPoint scalar) with
  | none => cases r <;> rfl
  | some K => cases r <;> rfl

theorem finish_eq (hC : C.Lawful) {w : Nat} {scalar : PakeRole → Nat} {own : PakeRole → Bytes}
    {idA idB aad K : Bytes} (hw : w < C.ORDER) (hs : ∀ r, 0 < scalar r ∧ scalar r < C.ORDER)
    (hown : ∀ r, C.toBytes (C.ownPoint r w (scalar r)) = some (own r))
    (hK : C.toBytes (C.sharedPoint scalar) = some K) (r : PakeRole) :
    C.finish { role := r, scalar := scalar r, w, own := own r, idA, idB, aad } (own r.other) =
      some (C.keySchedule r aad (transcript idA idB (own .A) (own .B) K w)) := by
  rw [finish_map hC idA idB aad hw hs hown r, hK, Option.map_some]

omit [AddCommGroup G] in
/-- The confirmation of each side is the one the other expects. -/
theorem keySchedule_matched (aad TT : Bytes) (r : PakeRole) :
    (C.keySchedule r aad TT).expectedPeer = (C.keySchedule r.other aad TT).confirm := by
  cases r <;> rfl

/-- A small group in which everything can be computed. -/
def small : Noble (ZMod 11) where
  BASE := 1
  M := 2
  N := 3
  ORDER := 11
  toBytes g := if g = 0 then none else some [UInt8.ofNat g.val]
  fromBytes
    | [b] => some b.toNat
    | _ => none
  normalize := id
  scrypt password salt dkLen := (password ++ salt).take dkLen
  sha256 b := b
  hkdf key _ info dkLen := (key ++ info).take dkLen
  hmac key b := key ++ b

theorem small_lawful : small.Lawful where
  order := by decide
  toBytes g hg := by simp [small, hg]
  fromBytes g b h := by
    have hread : ∀ g : ZMod 11, small.fromBytes [UInt8.ofNat g.val] = some g := by decide
    simp only [small, Option.ite_none_left_eq_some, Option.some.injEq] at h
    exact h.2 ▸ hread g

/-! ## Agreement -/

/-- What the two sides of an exchange hold in the end. -/
structure Agree (rA rB : Result) : Prop where
  transcript : rA.transcript = rB.transcript
  ke         : rA.ke = rB.ke
  ka         : rA.ka = rB.ka
  kcA        : rA.kcA = rB.kcA
  kcB        : rA.kcB = rB.kcB
  cA         : rA.cA = rB.cA
  cB         : rA.cB = rB.cB
  acceptA    : rA.verifyPeer rB.confirm = true
  acceptB    : rB.verifyPeer rA.confirm = true

omit [AddCommGroup G] in
theorem keySchedule_agree (aad TT : Bytes) : Agree (C.keySchedule .A aad TT) (C.keySchedule .B aad TT) :=
  ⟨rfl, rfl, rfl, rfl, rfl, rfl, rfl, timingSafeEqual_iff.mpr rfl, timingSafeEqual_iff.mpr rfl⟩

theorem start_none (hC : C.Lawful) {role : PakeRole} {w scalar : Nat} {idA idB aad : Bytes}
    (hw : w < C.ORDER) (hs : 0 < scalar ∧ scalar < C.ORDER)
    (h : C.start role w idA idB aad scalar = none) : C.ownPoint role w scalar = 0 := by
  by_contra hne
  obtain ⟨message, hm⟩ := Option.isSome_iff_exists.mp (hC.toBytes _ hne)
  rw [start_eq hw hs hm] at h
  cases h

theorem start_some {role : PakeRole} {w scalar : Nat} {idA idB aad : Bytes} (hw : w < C.ORDER)
    (hs : 0 < scalar ∧ scalar < C.ORDER) {st : State} {message : Bytes}
    (h : C.start role w idA idB aad scalar = some (st, message)) :
    C.toBytes (C.ownPoint role w scalar) = some message ∧
      st = { role, scalar, w, own := message, idA, idB, aad } := by
  cases hm : C.toBytes (C.ownPoint role w scalar) with
  | none =>
    rw [ownPoint] at hm
    simp [start, multiply, hs, mul_eq hw, hm] at h
  | some m =>
    rw [start_eq hw hs hm] at h
    cases h
    exact ⟨rfl, rfl⟩

/-- **SPAKE2 agreement.** Both sides of an exchange of messages end with the same, and a call throws
only if a message or the shared element is the identity. -/
theorem agreement (hC : C.Lawful) {w x y : Nat} (hw : w < C.ORDER) (hx : 0 < x ∧ x < C.ORDER)
    (hy : 0 < y ∧ y < C.ORDER) (idA idB aad : Bytes) :
    (C.start .A w idA idB aad x = none → w • C.M + x • C.BASE = 0) ∧
    (C.start .B w idA idB aad y = none → w • C.N + y • C.BASE = 0) ∧
    ∀ A mA B mB, C.start .A w idA idB aad x = some (A, mA) →
      C.start .B w idA idB aad y = some (B, mB) →
        (C.finish A mB = none ∨ C.finish B mA = none → (x * y) • C.BASE = 0) ∧
        ∀ rA rB, C.finish A mB = some rA → C.finish B mA = some rB → Agree rA rB := by
  refine ⟨start_none hC hw hx, start_none hC hw hy, fun A mA B mB hA hB => ?_⟩
  obtain ⟨hmA, rfl⟩ := start_some hw hx hA
  obtain ⟨hmB, rfl⟩ := start_some hw hy hB
  let scalar : PakeRole → Nat
    | .A => x
    | .B => y
  let own : PakeRole → Bytes
    | .A => mA
    | .B => mB
  have hs : ∀ r, 0 < scalar r ∧ scalar r < C.ORDER
    | .A => hx
    | .B => hy
  have hown : ∀ r, C.toBytes (C.ownPoint r w (scalar r)) = some (own r)
    | .A => hmA
    | .B => hmB
  have hfinA := finish_map hC idA idB aad hw hs hown .A
  have hfinB := finish_map hC idA idB aad hw hs hown .B
  simp only [PakeRole.other, scalar, own] at hfinA hfinB
  rw [hfinA, hfinB]
  refine ⟨fun hnone => ?_, fun rA rB hrA hrB => ?_⟩
  · have hK : C.toBytes (C.sharedPoint scalar) = none := by simpa using hnone
    by_contra hne
    have hsome := hC.toBytes (C.sharedPoint scalar) hne
    simp [hK] at hsome
  · obtain ⟨K, hK, rfl⟩ := Option.map_eq_some_iff.mp hrA
    rw [hK] at hrB
    cases hrB
    exact keySchedule_agree aad _

theorem agreement_sample : ∃ A mA B mB rA rB, small.start .A 4 [1] [2] [] 4 = some (A, mA) ∧
    small.start .B 4 [1] [2] [] 5 = some (B, mB) ∧ small.finish A mB = some rA ∧
      small.finish B mA = some rB ∧ Agree rA rB :=
  have hw : 4 < small.ORDER := by decide
  have hx : 0 < 4 ∧ 4 < small.ORDER := by decide
  have hy : 0 < 5 ∧ 5 < small.ORDER := by decide
  have h := (agreement small_lawful hw hx hy [1] [2] []).2.2 _ _ _ _ rfl rfl
  ⟨_, _, _, _, _, _, rfl, rfl, rfl, rfl, h.2 _ _ rfl rfl⟩

/-! ## Convergence -/

/-- Two sessions made with one code and one id each finish with the message of the other. -/
theorem session_matched (hC : C.Lawful) (code handshakeId : JsString) (random : PakeRole → Bytes)
    (h : C.NoIdentity (C.deriveW code (utf8 handshakeId)) fun r => C.randomScalar (random r)) :
    ∃ (own : PakeRole → Bytes) (state : PakeRole → State) (result : PakeRole → Result),
      (∀ r, ∃ g, C.toBytes g = some (own r)) ∧
      (∀ r, C.handshakeSession r code handshakeId (random r) = some (Side.new (state r) (own r))) ∧
      Matched (P := C.pake) state own result := by
  generalize hw : C.deriveW code (utf8 handshakeId) = w at h
  have hwlt : w < C.ORDER := hw ▸ deriveW_lt hC code (utf8 handshakeId)
  have hs := fun r => randomScalar_range hC (random r)
  choose own hown using fun r => Option.isSome_iff_exists.mp (hC.toBytes _ (h.own r))
  obtain ⟨K, hK⟩ := Option.isSome_iff_exists.mp (hC.toBytes _ h.shared)
  generalize hidA : idA handshakeId = idA
  generalize hidB : idB handshakeId = idB
  refine ⟨own, fun r => { role := r, scalar := C.randomScalar (random r), w, own := own r, idA, idB
                          aad := [] },
    fun r => C.keySchedule r [] (transcript idA idB (own .A) (own .B) K w), fun r => ⟨_, hown r⟩,
    fun r => ?_, fun r => finish_eq hC hwlt hs hown hK r, fun r => ?_, rfl⟩
  · simp only [handshakeSession, hw, hidA, hidB, start_eq hwlt (hs r) (hown r)]
    rfl
  · exact timingSafeEqual_iff.mpr (keySchedule_matched [] _ r).symm

/-- **Handshake convergence.** Two sessions made with one code and one id, and whatever is done to
the frames between them. -/
theorem handshake_converges (hC : C.Lawful) (code handshakeId : JsString)
    (random : PakeRole → Bytes)
    (h : C.NoIdentity (C.deriveW code (utf8 handshakeId)) fun r => C.randomScalar (random r)) :
    ∃ sides : PakeRole → Side C.pake,
      (∀ r, C.handshakeSession r code handshakeId (random r) = some (sides r)) ∧
        ∃ ke : Bytes, ∀ s, (pair sides).Reach Machine.Any s → ∀ r, Converged ke (s r) := by
  obtain ⟨own, state, result, -, hstart, hm⟩ := session_matched hC code handshakeId random h
  exact ⟨fun r => .new (state r) (own r), hstart, C.pake.ke (result .A), fun s hs r =>
    (onTrack_of_reach hm hs r).converged hm⟩

theorem handshake_converges_sample :
    ∃ sides : PakeRole → Side small.pake,
      (∀ r, small.handshakeSession r (JsString.lit "ABCDE12345") (JsString.lit "handshake-id-123")
        [if r = .A then 4 else 5] = some (sides r)) ∧
        ∃ ke : Bytes, ∀ s, (pair sides).Reach Machine.Any s → ∀ r, Converged ke (s r) :=
  handshake_converges small_lawful _ _ _
    ⟨fun r => by cases r <;> decide +kernel, by decide +kernel⟩

end Noble
end E2EAnon.Web
