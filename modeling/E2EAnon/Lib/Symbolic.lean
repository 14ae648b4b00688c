import Mathlib.Data.Set.Basic
import Mathlib.Order.Lattice
import Mathlib.Order.MinMax

/-!
# Symbolic messages and what an adversary derives from them

Messages over random names `N` and public constants `C`. Sealing is authenticated encryption
without side channels, a key pair is a name `n` with its public part `pub n`, and `dh` is the
secret two key pairs share. `kdf` is a derivation whose result is as secret as its input; `tag` is
a one-way image that may be published.

`Derives K t`: an adversary that has seen `K` can build `t`. `Safe S Θ Φ t`: `t` may be seen by an
adversary from which `S` is to be kept, while honest parties seal only safe messages under a key of
`Θ`, and `m` under a locked key `k` only if `Φ k m`. `safe_of_derives`: an adversary that has seen
safe messages only builds no other. `vouched_of_derives`: nor a tag of anything locked.
-/

namespace Lib

universe u v

inductive Term (N : Type u) (C : Type v)
  | const (c : C)
  | name (n : N)
  | pair (a b : Term N C)
  | pub (n : N)
  | dh (m n : N)
  | kdf (c : C) (a : Term N C)
  | tag (c : C) (a : Term N C)
  | enc (k m : Term N C)
deriving DecidableEq

namespace Term

variable {N : Type u} {C : Type v}

/-- The secret shared by two key pairs, whichever side computes it. -/
def agree [LinearOrder N] (m n : N) : Term N C := .dh (min m n) (max m n)

theorem agree_comm [LinearOrder N] (m n : N) : (agree m n : Term N C) = agree n m := by
  rw [agree, agree, min_comm, max_comm]

/-- Who has one of the two private keys is one of the two. -/
theorem eq_or_eq_of_agree [LinearOrder N] {m n m' n' : N}
    (h : (agree m n : Term N C) = agree m' n') : m = m' ∨ m = n' := by
  simp only [agree, dh.injEq] at h
  obtain ⟨hmin, hmax⟩ := h
  rcases le_total m n with hle | hle
  · rw [min_eq_left hle] at hmin
    exact hmin ▸ min_choice m' n'
  · rw [max_eq_left hle] at hmax
    exact hmax ▸ max_choice m' n'

/-! ## The adversary -/

inductive Derives [LinearOrder N] (K : Set (Term N C)) : Term N C → Prop
  | known {t} : t ∈ K → Derives K t
  | const (c) : Derives K (.const c)
  | pair {a b} : Derives K a → Derives K b → Derives K (.pair a b)
  | fst {a b} : Derives K (.pair a b) → Derives K a
  | snd {a b} : Derives K (.pair a b) → Derives K b
  | pub {n} : Derives K (.name n) → Derives K (.pub n)
  | agree {m n} : Derives K (.name m) → Derives K (.pub n) → Derives K (agree m n)
  | kdf (c) {a} : Derives K a → Derives K (.kdf c a)
  | tag (c) {a} : Derives K a → Derives K (.tag c a)
  | enc {k m} : Derives K k → Derives K m → Derives K (.enc k m)
  | dec {k m} : Derives K (.enc k m) → Derives K k → Derives K m

theorem Derives.mono [LinearOrder N] {K K' : Set (Term N C)} (h : K ⊆ K') {t : Term N C}
    (ht : Derives K t) : Derives K' t := by
  induction ht with
  | known h' => exact .known (h h')
  | const c => exact .const c
  | pair _ _ iha ihb => exact .pair iha ihb
  | fst _ ih => exact .fst ih
  | snd _ ih => exact .snd ih
  | pub _ ih => exact .pub ih
  | agree _ _ ihm ihn => exact .agree ihm ihn
  | kdf c _ ih => exact .kdf c ih
  | tag c _ ih => exact .tag c ih
  | enc _ _ ihk ihm => exact .enc ihk ihm
  | dec _ _ ihs ihk => exact .dec ihs ihk

/-! ## Safe messages -/

end Term

/-- What is to be kept from the adversary. -/
structure Secrets (N : Type u) where
  /-- The names it does not know. -/
  secret : N → Prop
  /-- Those of them whose public part it does not know either. -/
  hidden : N → Prop
  secret_of_hidden : ∀ n, hidden n → secret n

namespace Term

variable {S : Secrets N} {Θ : Term N C → Prop} {Φ Ψ : Term N C → Term N C → Prop}

/-- Made of something secret in such a way that the adversary cannot build it. -/
def Locked (S : Secrets N) : Term N C → Prop
  | .const _ | .tag _ _ | .enc _ _ => False
  | .name n => S.secret n
  | .pub n => S.hidden n
  | .pair a b => Locked S a ∨ Locked S b
  | .dh m n => (S.secret m ∨ S.hidden n) ∧ (S.secret n ∨ S.hidden m)
  | .kdf _ a => Locked S a

instance lockedDecidable [DecidablePred S.secret] [DecidablePred S.hidden] :
    ∀ t : Term N C, Decidable (Locked S t)
  | .const _ | .tag _ _ | .enc _ _ => inferInstanceAs (Decidable False)
  | .name n => inferInstanceAs (Decidable (S.secret n))
  | .pub n => inferInstanceAs (Decidable (S.hidden n))
  | .pair a b =>
    have := lockedDecidable a
    have := lockedDecidable b
    inferInstanceAs (Decidable (Locked S a ∨ Locked S b))
  | .dh m n => inferInstanceAs (Decidable ((S.secret m ∨ S.hidden n) ∧ (S.secret n ∨ S.hidden m)))
  | .kdf _ a => lockedDecidable a

/-- May be seen by the adversary. A message under a key it can have is as good as the message
itself; one under a locked key has been sealed by an honest party. -/
def Safe (S : Secrets N) (Θ : Term N C → Prop) (Φ : Term N C → Term N C → Prop) : Term N C → Prop
  | .const _ | .tag _ _ => True
  | .name n => ¬ S.secret n
  | .pub n => ¬ S.hidden n
  | .pair a b => Safe S Θ Φ a ∧ Safe S Θ Φ b
  | .dh m n => (¬ S.secret m ∧ ¬ S.hidden n) ∨ (¬ S.secret n ∧ ¬ S.hidden m)
  | .kdf _ a => Safe S Θ Φ a
  | .enc k m => ((Safe S Θ Φ k ∨ Θ k) ∧ Safe S Θ Φ m) ∨ (Locked S k ∧ Φ k m)

@[simp] theorem locked_name {n : N} : Locked S (.name n : Term N C) ↔ S.secret n := .rfl
@[simp] theorem locked_kdf {c : C} {a : Term N C} : Locked S (.kdf c a) ↔ Locked S a := .rfl
@[simp] theorem locked_pair {a b : Term N C} :
    Locked S (.pair a b) ↔ Locked S a ∨ Locked S b := .rfl

@[simp] theorem safe_const (c : C) : Safe S Θ Φ (.const c) := trivial
@[simp] theorem safe_tag (c : C) (a : Term N C) : Safe S Θ Φ (.tag c a) := trivial
@[simp] theorem safe_name {n : N} : Safe S Θ Φ (.name n) ↔ ¬ S.secret n := .rfl
@[simp] theorem safe_kdf {c : C} {a : Term N C} : Safe S Θ Φ (.kdf c a) ↔ Safe S Θ Φ a := .rfl
@[simp] theorem safe_pair {a b : Term N C} :
    Safe S Θ Φ (.pair a b) ↔ Safe S Θ Φ a ∧ Safe S Θ Φ b := .rfl

theorem locked_agree [LinearOrder N] {m n : N} : Locked S (agree m n : Term N C) ↔
    (S.secret m ∨ S.hidden n) ∧ (S.secret n ∨ S.hidden m) := by
  simp only [agree, Locked]
  rcases le_total m n with h | h
  · rw [min_eq_left h, max_eq_right h]
  · rw [min_eq_right h, max_eq_left h, and_comm]

theorem safe_agree [LinearOrder N] {m n : N} : Safe S Θ Φ (agree m n) ↔
    (¬ S.secret m ∧ ¬ S.hidden n) ∨ (¬ S.secret n ∧ ¬ S.hidden m) := by
  simp only [agree, Safe]
  rcases le_total m n with h | h
  · rw [min_eq_left h, max_eq_right h]
  · rw [min_eq_right h, max_eq_left h, or_comm]

theorem Locked.not_safe {t : Term N C} (h : Locked S t) : ¬ Safe S Θ Φ t := by
  induction t with
  | const c => exact h.elim
  | name n => exact fun hs => hs h
  | pair a b iha ihb => exact fun hs => h.elim (fun h => iha h hs.1) (fun h => ihb h hs.2)
  | pub n => exact fun hs => hs h
  | dh m n =>
    rintro (⟨hm, hn⟩ | ⟨hn, hm⟩)
    · exact h.1.elim hm hn
    · exact h.2.elim hn hm
  | kdf c a ih => exact ih h
  | tag c a => exact h.elim
  | enc k m => exact h.elim

/-- More may be sealed. -/
theorem Safe.mono (h : ∀ k m, Φ k m → Ψ k m) {t : Term N C} (ht : Safe S Θ Φ t) : Safe S Θ Ψ t := by
  induction t with
  | const c => exact safe_const c
  | name n => exact ht
  | pair a b iha ihb => exact ⟨iha ht.1, ihb ht.2⟩
  | pub n => exact ht
  | dh m n => exact ht
  | kdf c a ih => exact ih ht
  | tag c a => exact safe_tag c a
  | enc k m ihk ihm =>
    exact ht.imp (fun h => ⟨h.1.imp_left ihk, ihm h.2⟩) (fun h' => ⟨h'.1, h k m h'.2⟩)

theorem Safe.under {k m : Term N C} (hk : Safe S Θ Φ k) (hm : Safe S Θ Φ m) : Safe S Θ Φ (.enc k m) :=
  .inl ⟨.inl hk, hm⟩

/-- An envelope under a locked key that went over the network was sealed by an honest party. -/
theorem Safe.authentic {k m : Term N C} (h : Safe S Θ Φ (.enc k m)) (hk : Locked S k)
    (hθ : ¬ Θ k) : Φ k m :=
  h.elim (fun h => absurd h.1 (not_or.mpr ⟨hk.not_safe, hθ⟩)) (·.2)

/-- The adversary's own operations keep to safe messages. -/
theorem safe_of_derives [LinearOrder N] {K : Set (Term N C)} (hK : ∀ t ∈ K, Safe S Θ Φ t)
    {t : Term N C} (h : Derives K t) : Safe S Θ Φ t := by
  induction h with
  | known h => exact hK _ h
  | const c => exact safe_const c
  | pair _ _ iha ihb => exact ⟨iha, ihb⟩
  | fst _ ih => exact ih.1
  | snd _ ih => exact ih.2
  | pub _ ih => exact fun h => ih (S.secret_of_hidden _ h)
  | agree _ _ ihm ihn => exact safe_agree.mpr (.inl ⟨ihm, ihn⟩)
  | kdf c _ ih => exact ih
  | tag c _ _ => exact safe_tag c _
  | enc _ _ ihk ihm => exact ihk.under ihm
  | dec _ _ ihs ihk =>
    rcases ihs with h | h
    · exact h.2
    · exact absurd ihk h.1.not_safe

/-! ## Tags of secrets -/

/-- The tags of locked terms in `t`, as far as no locked envelope hides them, are in `T`. -/
def Vouched (S : Secrets N) (T : C → Term N C → Prop) : Term N C → Prop
  | .tag c a => Locked S a → T c a
  | .pair a b => Vouched S T a ∧ Vouched S T b
  | .enc k m => Locked S k ∨ Vouched S T m
  | .const _ | .name _ | .pub _ | .dh _ _ | .kdf _ _ => True

theorem Vouched.mono {T T' : C → Term N C → Prop} (h : ∀ c a, T c a → T' c a) {t : Term N C}
    (ht : Vouched S T t) : Vouched S T' t := by
  induction t with
  | tag c a => exact fun hl => h c a (ht hl)
  | pair a b iha ihb => exact ⟨iha ht.1, ihb ht.2⟩
  | enc k m _ ihm => exact ht.imp_right ihm
  | _ => trivial

/-- The adversary tags nothing that is locked: it has been shown every such tag. -/
theorem vouched_of_derives [LinearOrder N] {K : Set (Term N C)} {T : C → Term N C → Prop}
    (hsafe : ∀ t ∈ K, Safe S Θ Φ t) (hK : ∀ t ∈ K, Vouched S T t) {t : Term N C} (h : Derives K t) :
    Vouched S T t := by
  induction h with
  | known h => exact hK _ h
  | const c => trivial
  | pair _ _ iha ihb => exact ⟨iha, ihb⟩
  | fst _ ih => exact ih.1
  | snd _ ih => exact ih.2
  | pub _ _ => trivial
  | agree _ _ _ _ => trivial
  | kdf c _ _ => trivial
  | tag c ha _ => exact fun hl => absurd (safe_of_derives hsafe ha) hl.not_safe
  | enc _ _ _ ihm => exact .inr ihm
  | dec _ hk ihs _ => exact ihs.resolve_left fun hl => hl.not_safe (safe_of_derives hsafe hk)

end Term
end Lib
