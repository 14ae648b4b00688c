import Mathlib.Data.List.Nodup
import Mathlib.Data.List.Perm.Subperm
import Mathlib.Data.List.Sort

/-!
# Insertion-ordered maps and sets

A JavaScript `Map` or `Set` as a list: `set` on a key that is present keeps the key's position,
on a new key it appends. An object is one too, by its own properties in the order of their creation;
`assign` and `ownProperties` are where it is not like a `Map`.
-/

namespace Lib

universe u v

abbrev JsMap (K : Type u) (V : Type v) := List (K × V)

namespace JsMap

variable {K : Type u} {V : Type v} [DecidableEq K]

def get (k : K) : JsMap K V → Option V
  | [] => none
  | (k', v) :: m => if k' = k then some v else get k m

def set (k : K) (v : V) : JsMap K V → JsMap K V
  | [] => [(k, v)]
  | (k', v') :: m => if k' = k then (k, v) :: m else (k', v') :: set k v m

def delete (k : K) (m : JsMap K V) : JsMap K V := m.filter fun e => e.1 ≠ k

variable {m : JsMap K V} {k k' : K} {v : V}

@[simp] theorem get_nil : get k ([] : JsMap K V) = none := rfl

@[simp] theorem get_set : get k' (set k v m) = if k = k' then some v else get k' m := by
  induction m with
  | nil => simp [set, get]
  | cons e m ih =>
    obtain ⟨a, b⟩ := e
    by_cases ha : a = k
    · subst ha
      by_cases hk : a = k' <;> simp [set, get, hk]
    · by_cases hk : a = k'
      · subst hk
        simp [set, get, ha, Ne.symm ha]
      · simp [set, get, ha, hk, ih]

@[simp] theorem get_delete : get k' (delete k m) = if k = k' then none else get k' m := by
  induction m with
  | nil => simp [delete]
  | cons e m ih =>
    obtain ⟨a, b⟩ := e
    simp only [delete, List.filter_cons, ne_eq, decide_not] at ih ⊢
    by_cases ha : a = k
    · subst ha
      by_cases hk : a = k' <;> simp [get, hk] at ih ⊢ <;> simpa [get, hk] using ih
    · by_cases hk : a = k'
      · subst hk
        simp [get, ha, Ne.symm ha]
      · simp [get, ha, hk, ih]

theorem mem_of_get (h : get k m = some v) : (k, v) ∈ m := by
  induction m with
  | nil => simp at h
  | cons e m ih =>
    obtain ⟨a, b⟩ := e
    by_cases ha : a = k
    · subst ha
      simp only [get, if_true, Option.some.injEq] at h
      simp [h]
    · simp only [get, ha, if_false] at h
      exact List.mem_cons_of_mem _ (ih h)

theorem mem_set {e : K × V} (h : e ∈ set k v m) : e = (k, v) ∨ e ∈ m := by
  induction m with
  | nil => simpa [set] using h
  | cons e' m ih =>
    obtain ⟨a, b⟩ := e'
    by_cases ha : a = k
    · simp only [set, ha, if_true, List.mem_cons] at h
      exact h.imp_right (List.mem_cons_of_mem _)
    · simp only [set, ha, if_false, List.mem_cons] at h
      rcases h with rfl | h
      · exact .inr (by simp)
      · exact (ih h).imp_right (List.mem_cons_of_mem _)

/-! ## What `f` finds in a map -/

section
variable {A : Type v} {f : K × V → Option A}

theorem filterMap_set_subperm :
    List.Subperm ((set k v m).filterMap f) ((f (k, v)).toList ++ m.filterMap f) := by
  induction m with
  | nil => cases h : f (k, v) <;> simp [set, h]
  | cons e m ih =>
    obtain ⟨a, b⟩ := e
    by_cases ha : a = k
    · subst ha
      simp only [set, if_true, List.filterMap_cons]
      have hcons (x : A) (l : List A) : List.Subperm l (x :: l) :=
        (List.sublist_cons_self x l).subperm
      cases f (a, v) <;> cases f (a, b) <;> simp [List.subperm_cons, hcons, List.Subperm.refl]
    · simp only [set, ha, if_false, List.filterMap_cons]
      cases f (a, b) with
      | none => exact ih
      | some x =>
        refine (List.subperm_cons x |>.mpr ih).trans ?_
        exact List.perm_middle.symm.subperm

/-- Replacing a value by one in which `f` finds the same. -/
theorem filterMap_set_same {v' : V} (hg : get k m = some v') (hf : f (k, v) = f (k, v')) :
    (set k v m).filterMap f = m.filterMap f := by
  induction m with
  | nil => simp at hg
  | cons e m ih =>
    obtain ⟨a, b⟩ := e
    by_cases ha : a = k
    · subst ha
      simp only [get, if_true, Option.some.injEq] at hg
      subst hg
      simp [set, List.filterMap_cons, hf]
    · simp only [get, ha, if_false] at hg
      simp [set, ha, List.filterMap_cons, ih hg]

theorem filterMap_delete_sublist : ((delete k m).filterMap f).Sublist (m.filterMap f) :=
  List.filter_sublist.filterMap f

/-- What `f` finds at one key it does not find after the key is deleted. -/
theorem not_mem_filterMap_delete {x : A} (hn : (m.filterMap f).Nodup) (hg : get k m = some v)
    (hf : f (k, v) = some x) : x ∉ (delete k m).filterMap f := by
  induction m with
  | nil => simp at hg
  | cons e m ih =>
    obtain ⟨a, b⟩ := e
    have hsub : ((delete k m).filterMap f).Sublist (m.filterMap f) := filterMap_delete_sublist
    by_cases ha : a = k
    · subst ha
      simp only [get, if_true, Option.some.injEq] at hg
      subst hg
      simp only [List.filterMap_cons, hf, List.nodup_cons] at hn
      simp only [delete, List.filter_cons, ne_eq, not_true_eq_false, decide_false,
        Bool.false_eq_true, if_false]
      exact fun hx => hn.1 (hsub.subset hx)
    · simp only [get, ha, if_false] at hg
      have hx : x ∈ m.filterMap f := List.mem_filterMap.mpr ⟨_, mem_of_get hg, hf⟩
      simp only [delete, List.filter_cons, ne_eq, ha, not_false_eq_true, decide_true, if_true,
        List.filterMap_cons] at hn ⊢
      cases hab : f (a, b) with
      | none =>
        simp only [hab] at hn
        exact ih hn hg
      | some y =>
        simp only [hab, List.nodup_cons] at hn
        simp only [List.mem_cons, not_or]
        exact ⟨fun h => hn.1 (h ▸ hx), ih hn.2 hg⟩

end

/-! ## Objects -/

/-- `obj[k] = v` where `v` is no object: the setter of the inherited property `proto` ignores it. -/
def assign (proto k : K) (v : V) (m : JsMap K V) : JsMap K V :=
  if k = proto ∧ (get k m).isNone then m else set k v m

/-- The order in which the properties are listed: array indices in ascending order, then the others
as they were created. -/
def ownProperties (index : K → Option Nat) (m : JsMap K V) : JsMap K V :=
  (m.filter fun e => (index e.1).isSome).insertionSort
    (fun e e' => (index e.1).getD 0 ≤ (index e'.1).getD 0) ++ m.filter fun e => !(index e.1).isSome

omit [DecidableEq K] in
theorem ownProperties_perm (index : K → Option Nat) (m : JsMap K V) :
    List.Perm (ownProperties index m) m :=
  ((List.perm_insertionSort _ _).append_right _).trans (List.filter_append_perm _ m)

theorem assign_ne_nil {proto : K} (h : m ≠ []) : assign proto k v m ≠ [] := by
  cases m with
  | nil => exact absurd rfl h
  | cons e m =>
    unfold assign
    split
    · exact h
    · by_cases he : e.1 = k
      · simp [set, he]
      · simp [set, he]

section
variable {W : Type v} (f : V → W)

theorem get_map : get k (m.map fun e => (e.1, f e.2)) = (get k m).map f := by
  induction m with
  | nil => rfl
  | cons e m ih =>
    by_cases he : e.1 = k
    · simp [get, he]
    · simpa [get, he] using ih

theorem map_set : (set k v m).map (fun e => (e.1, f e.2)) = set k (f v) (m.map fun e => (e.1, f e.2)) := by
  induction m with
  | nil => rfl
  | cons e m ih =>
    by_cases he : e.1 = k
    · simp [set, he]
    · simp [set, he, ← ih]

theorem map_assign {proto : K} : (assign proto k v m).map (fun e => (e.1, f e.2)) =
    assign proto k (f v) (m.map fun e => (e.1, f e.2)) := by
  simp only [assign, get_map, Option.isNone_map]
  split
  · rfl
  · exact map_set f

end

end JsMap

/-- `Set.prototype.add`. -/
def JsSet.add {K : Type u} [DecidableEq K] (k : K) (s : List K) : List K :=
  if k ∈ s then s else s ++ [k]

end Lib
