import Mathlib.Data.Finset.Card
import E2EAnon.Lib.JsMap

/-!
# Slots filled in any order

A map from indices to values with an upper bound `n` on the indices. Whoever counts the slots as they
fill knows when all are there, and then reads them in the order of the indices.
-/

namespace Lib.JsMap

universe v

variable {V : Type v} {m : JsMap Nat V} {n i : Nat} {v : V}

/-- The slots below `n` that have been filled. -/
def filled (n : Nat) (m : JsMap Nat V) : Finset Nat :=
  (Finset.range n).filter fun i => (get i m).isSome

/-- The slots below `n` in order. -/
def assemble (n : Nat) (m : JsMap Nat V) : List (Option V) := (List.range n).map fun i => get i m

theorem filled_nil (n : Nat) : (filled n ([] : JsMap Nat V)).card = 0 := by simp [filled]

theorem filled_set (hi : i < n) : filled n (set i v m) = insert i (filled n m) := by
  ext j
  simp only [filled, get_set, Finset.mem_filter, Finset.mem_range, Finset.mem_insert]
  by_cases hj : i = j
  · subst hj
    simp [hi]
  · simp [hj, Ne.symm hj]

theorem card_filled_set (hi : i < n) (hfree : get i m = none) :
    (filled n (set i v m)).card = (filled n m).card + 1 := by
  rw [filled_set hi, Finset.card_insert_of_notMem (by simp [filled, hfree])]

/-- With all slots filled with the pieces of `f`, what is assembled is `f`. -/
theorem assemble_eq {f : Nat → V} (hcount : (filled n m).card = n)
    (hm : ∀ i v, get i m = some v → v = f i) :
    assemble n m = (List.range n).map fun i => some (f i) := by
  have hall : filled n m = Finset.range n :=
    Finset.eq_of_subset_of_card_le (Finset.filter_subset _ _) (by simp [hcount])
  refine List.map_congr_left fun i hi => ?_
  have hmem : i ∈ filled n m := hall ▸ Finset.mem_range.mpr (List.mem_range.mp hi)
  obtain ⟨v, hv⟩ := Option.isSome_iff_exists.mp (Finset.mem_filter.mp hmem).2
  rw [hv, hm i v hv]

end Lib.JsMap
