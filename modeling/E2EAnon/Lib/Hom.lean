import E2EAnon.Lib.Machine

/-!
# Maps of machines

`Hom`: a map of states and labels under which each step of one machine is the step of the other,
enabled or not. Schedules then run alike.

`Embeds`: a part of the states of one machine in which each of its steps is a step of the other, or
none. What holds of the reachable states of the part then holds inside the whole.
-/

namespace Lib.Machine

universe u v u' v'

variable {σ : Type u} {α : Type v} {τ : Type u} {β : Type v'}

structure Hom (M : Machine σ α) (N : Machine τ β) where
  onState : σ → τ
  onLabel : α → β
  init    : onState M.init = N.init
  step    : ∀ s a, N.step (onState s) (onLabel a) = (M.step s a).map onState

namespace Hom

variable {M : Machine σ α} {N : Machine τ β} (F : Hom M N)

theorem foldlM_map (as : List α) (s : σ) :
    (as.map F.onLabel).foldlM N.step (F.onState s) = (as.foldlM M.step s).map F.onState := by
  induction as generalizing s with
  | nil => rfl
  | cons a as ih =>
    simp only [List.map_cons, List.foldlM_cons, F.step]
    cases M.step s a with
    | none => rfl
    | some s' => exact ih s'

/-- A mapped schedule runs to the mapped state. -/
theorem run_map (as : List α) : N.run (as.map F.onLabel) = (M.run as).map F.onState := by
  have h := F.foldlM_map as M.init
  rw [F.init] at h
  exact h

/-- Schedules that are the same under the map end in states that are. -/
theorem run_congr {as bs : List α} (h : as.map F.onLabel = bs.map F.onLabel) :
    (M.run as).map F.onState = (M.run bs).map F.onState := by
  rw [← F.run_map, ← F.run_map, h]

end Hom

structure Embeds (M : Machine σ α) (N : Machine τ β) (part : σ → τ) : Prop where
  init : part M.init = N.init
  step : ∀ s a s', M.step s a = some s' →
    part s' = part s ∨ ∃ b, N.step (part s) b = some (part s')

theorem Embeds.reach {M : Machine σ α} {N : Machine τ β} {part : σ → τ} (h : M.Embeds N part)
    {ok : σ → α → Prop} {s : σ} (hr : M.Reach ok s) : N.Reach Any (part s) := by
  induction hr with
  | init => exact h.init ▸ .init
  | step _ _ hs ih =>
    obtain heq | ⟨b, hb⟩ := h.step _ _ _ hs
    · exact heq ▸ ih
    · exact ih.step trivial hb

end Lib.Machine
