import Mathlib.Algebra.BigOperators.Group.Finset.Basic
import Mathlib.Algebra.BigOperators.Group.List.Lemmas
import Mathlib.Algebra.Order.BigOperators.Group.List
import Mathlib.Data.List.AList
import Mathlib.Tactic.Abel

/-!
# 64-bit counters and sums over finite maps

`Int64` addition wraps, and is a commutative group; so a sum of counters does not depend on the
order in which they are added, whatever their size. `total` adds up the values of a finite map,
with the two rules by which an insertion and a deletion change it. `bytes` adds them up as integers;
a counter agrees with it as long as no addition leaves the range.
-/

namespace Lib

instance instAddCommGroupInt64 : AddCommGroup Int64 where
  add_assoc := Int64.add_assoc
  zero_add := Int64.zero_add
  add_zero := Int64.add_zero
  neg_add_cancel := Int64.add_left_neg
  add_comm := Int64.add_comm
  sub_eq_add_neg := Int64.sub_eq_add_neg
  nsmul := nsmulRec
  zsmul := zsmulRec

variable {κ M : Type*} [AddCommGroup M]

/-- The sum of a map's values. -/
def total (m : AList fun _ : κ => M) : M := (m.entries.map Sigma.snd).sum

@[simp] theorem total_empty : total (∅ : AList fun _ : κ => M) = 0 := rfl

variable [DecidableEq κ]

theorem sum_kerase {V : Type*} (f : V → M) (k : κ) (l : List (Sigma fun _ : κ => V)) :
    (l.map fun e => f e.2).sum =
      (l.dlookup k).elim 0 f + ((l.kerase k).map fun e => f e.2).sum := by
  induction l with
  | nil => simp
  | cons e l ih =>
    obtain ⟨k', v⟩ := e
    by_cases h : k = k'
    · subst h
      simp
    · rw [List.kerase_cons_ne h, List.dlookup_cons_ne _ _ h]
      simp only [List.map_cons, List.sum_cons, ih]
      abel

/-- A map's total is the value at one key and the total of the rest. -/
theorem total_erase (k : κ) (m : AList fun _ : κ => M) :
    total m = (m.lookup k).getD 0 + total (m.erase k) := by
  have h := sum_kerase id k m.entries
  rw [show m.entries.dlookup k = m.lookup k from rfl] at h
  cases hk : m.lookup k <;> rw [hk] at h <;> exact h

theorem total_insert (k : κ) (v : M) (m : AList fun _ : κ => M) :
    total (m.insert k v) = v + total (m.erase k) := by
  rw [total, AList.entries_insert, List.map_cons, List.sum_cons]
  rfl

/-- Overwriting an entry changes the total by the difference. -/
theorem total_insert_eq (k : κ) (v : M) (m : AList fun _ : κ => M) :
    total (m.insert k v) = v - (m.lookup k).getD 0 + total m := by
  rw [total_insert, total_erase k m]
  abel

/-! ## The integers behind a counter -/

theorem toInt_add_of_lt {n x : Int64} (hn : 0 ≤ n.toInt) (hx : 0 ≤ x.toInt)
    (h : n.toInt + x.toInt < 2 ^ 63) : (n + x).toInt = n.toInt + x.toInt := by
  rw [Int64.toInt_add, Int.bmod_eq_of_le] <;> omega

theorem toInt_add_neg_of_le {n x : Int64} (hx : 0 ≤ x.toInt) (h : x.toInt ≤ n.toInt) :
    (n + -x).toInt = n.toInt - x.toInt := by
  have hn := n.toInt_lt
  rw [← Int64.sub_eq_add_neg, Int64.toInt_sub, Int.bmod_eq_of_le] <;> omega

/-- The sum of a map's values as integers: nothing wraps. -/
def bytes (m : AList fun _ : κ => Int64) : Int := (m.entries.map fun e => e.2.toInt).sum

omit [DecidableEq κ] in
@[simp] theorem bytes_empty : bytes (∅ : AList fun _ : κ => Int64) = 0 := rfl

theorem bytes_erase (k : κ) (m : AList fun _ : κ => Int64) :
    bytes m = (m.lookup k).elim 0 Int64.toInt + bytes (m.erase k) :=
  sum_kerase Int64.toInt k m.entries

theorem bytes_insert (k : κ) (v : Int64) (m : AList fun _ : κ => Int64) :
    bytes (m.insert k v) = v.toInt + bytes (m.erase k) := by
  rw [bytes, AList.entries_insert, List.map_cons, List.sum_cons]
  rfl

theorem bytes_nonneg {m : AList fun _ : κ => Int64} (h : ∀ k v, m.lookup k = some v → 0 ≤ v.toInt) :
    0 ≤ bytes m := by
  refine List.sum_nonneg fun x hx => ?_
  obtain ⟨⟨k, v⟩, he, rfl⟩ := List.mem_map.mp hx
  exact h k v (AList.mem_lookup_iff.mpr he)

end Lib
