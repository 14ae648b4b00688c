import Mathlib
import E2EAnon.Lib.Machine

/-!
# Paying for work

An account of a machine gives each state the work it still has to do and each step what it brings
in. Some labels are the machine's own work: each takes at least one off and brings nothing in. So a
run works no more than it has been given, from any state the machine's own work comes to an end, and
a state it cannot go on from is reached.
-/

namespace Lib.Machine

universe u v

variable {σ : Type u} {α : Type v}

structure Account (M : Machine σ α) where
  /-- The work a state has still to do. -/
  load  : σ → Nat
  /-- The work a step from a state with a label brings. -/
  grant : σ → α → Nat
  /-- The machine's own work. -/
  works : α → Bool
  free  : ∀ s a, works a = true → grant s a = 0
  paid  : ∀ s a s', M.Reach Any s → M.step s a = some s' →
    load s' + (if works a = true then 1 else 0) ≤ load s + grant s a

namespace Account

variable {M : Machine σ α} (A : Account M)

/-- A run has done no more work than it was given. -/
theorem work_le {l : List (Transition σ α)} {s : σ} (h : M.Trace l s) :
    l.countP (fun t => A.works t.label) + A.load s ≤
      A.load M.init + (l.map fun t => A.grant t.before t.label).sum := by
  induction h with
  | nil => simp
  | @snoc l s s' a hl hs ih =>
    have hpaid := A.paid s a s' hl.reach hs
    simp only [List.countP_append, List.countP_singleton, List.map_append, List.map_singleton,
      List.sum_append, List.sum_singleton]
    omega

/-- The machine's own work from a state is bounded by the state's load. -/
theorem length_le {s t : σ} {as : List α} (hr : M.Reach Any s) (ha : ∀ a ∈ as, A.works a = true)
    (h : as.foldlM M.step s = some t) : as.length + A.load t ≤ A.load s := by
  induction as generalizing s with
  | nil =>
    simp only [List.foldlM_nil, Option.pure_def, Option.some.injEq] at h
    simp [h]
  | cons a as ih =>
    simp only [List.foldlM_cons, Option.bind_eq_bind, Option.bind_eq_some_iff] at h
    obtain ⟨s', hs', ht⟩ := h
    have hpaid := A.paid s a s' hr hs'
    have hrest := ih (hr.step trivial hs') (fun b hb => ha b (by simp [hb])) ht
    have hfree := A.free s a (ha a (by simp))
    simp only [ha a (by simp), if_true, hfree] at hpaid
    simp only [List.length_cons]
    omega

/-- None of the machine's own work is left to do. -/
def AtRest (s : σ) : Prop := ∀ a, A.works a = true → M.step s a = none

/-- From any reachable state the machine can work until it is at rest. -/
theorem exists_rest {s : σ} (hr : M.Reach Any s) :
    ∃ (as : List α) (t : σ), (∀ a ∈ as, A.works a = true) ∧
      as.foldlM M.step s = some t ∧ A.AtRest t := by
  induction hn : A.load s using Nat.strongRecOn generalizing s with
  | ind n ih =>
    by_cases hrest : A.AtRest s
    · exact ⟨[], s, by simp, rfl, hrest⟩
    · simp only [AtRest, not_forall] at hrest
      obtain ⟨a, ha, hsome⟩ := hrest
      obtain ⟨s', hs'⟩ := Option.ne_none_iff_exists'.mp hsome
      have hpaid := A.paid s a s' hr hs'
      simp only [ha, if_true, A.free s a ha] at hpaid
      obtain ⟨as, t, has, ht, hat⟩ := ih (A.load s') (by omega) (hr.step trivial hs') rfl
      refine ⟨a :: as, t, ?_, ?_, hat⟩
      · simpa using ⟨ha, has⟩
      · simp [hs', ht]

end Account

/-! ## Runs of some labels -/

/-- `s` leads to `t` by labels that `p` allows. -/
def Leads (M : Machine σ α) (p : α → Prop) (s t : σ) : Prop :=
  ∃ as : List α, (∀ a ∈ as, p a) ∧ as.foldlM M.step s = some t

namespace Leads

variable {M : Machine σ α} {p q : α → Prop} {s t u : σ}

theorem refl (s : σ) : M.Leads p s s := ⟨[], by simp, rfl⟩

theorem single {a : α} (ha : p a) (h : M.step s a = some t) : M.Leads p s t :=
  ⟨[a], by simpa using ha, by simp [h]⟩

theorem trans (h : M.Leads p s t) (h' : M.Leads p t u) : M.Leads p s u := by
  obtain ⟨as, has, ht⟩ := h
  obtain ⟨bs, hbs, hu⟩ := h'
  refine ⟨as ++ bs, fun a ha => ?_, by simp [List.foldlM_append, ht, hu]⟩
  exact (List.mem_append.mp ha).elim (has a) (hbs a)

theorem mono (hpq : ∀ a, p a → q a) (h : M.Leads p s t) : M.Leads q s t := by
  obtain ⟨as, has, ht⟩ := h
  exact ⟨as, fun a ha => hpq a (has a ha), ht⟩

theorem reach (h : M.Leads p s t) (hr : M.Reach Any s) : M.Reach Any t := by
  obtain ⟨as, -, ht⟩ := h
  exact reach_of_foldlM hr ht

/-- What each of the labels keeps is kept. -/
theorem keeps {P : σ → Prop} (h : M.Leads p s t) (hr : M.Reach Any s)
    (hstep : ∀ s a s', M.Reach Any s → p a → P s → M.step s a = some s' → P s') (hs : P s) : P t := by
  obtain ⟨as, has, ht⟩ := h
  induction as generalizing s with
  | nil => cases ht; exact hs
  | cons a as ih =>
    simp only [List.foldlM_cons, Option.bind_eq_bind, Option.bind_eq_some_iff] at ht
    obtain ⟨s', hs', ht⟩ := ht
    have hnext := hstep s a s' hr (has a (by simp)) hs hs'
    exact ih (hr.step trivial hs') hnext (fun b hb => has b (by simp [hb])) ht

end Leads

/-! ## Sums where one summand changes -/

section
variable {ι : Type u} {f g : ι → Nat} {i : ι}

theorem sum_change {S : Finset ι} {m n : Nat} (hi : i ∈ S) (hother : ∀ x, x ≠ i → f x = g x)
    (h : f i + m ≤ g i + n) : ∑ x ∈ S, f x + m ≤ ∑ x ∈ S, g x + n := by
  classical
  have hrest : ∑ x ∈ S.erase i, f x = ∑ x ∈ S.erase i, g x :=
    Finset.sum_congr rfl fun x hx => hother x (Finset.ne_of_mem_erase hx)
  rw [← Finset.add_sum_erase S f hi, ← Finset.add_sum_erase S g hi, hrest]
  omega

theorem sum_grow {S : Finset ι} {n : Nat} (hother : ∀ x, x ≠ i → f x ≤ g x)
    (h : f i ≤ g i + n) : ∑ x ∈ S, f x ≤ ∑ x ∈ S, g x + n := by
  classical
  by_cases hi : i ∈ S
  · have hrest : ∑ x ∈ S.erase i, f x ≤ ∑ x ∈ S.erase i, g x :=
      Finset.sum_le_sum fun x hx => hother x (Finset.ne_of_mem_erase hx)
    rw [← Finset.add_sum_erase S f hi, ← Finset.add_sum_erase S g hi]
    omega
  · have hle : ∑ x ∈ S, f x ≤ ∑ x ∈ S, g x :=
      Finset.sum_le_sum fun x hx => hother x fun he => hi (he ▸ hx)
    omega

end
end Lib.Machine
