import Mathlib.Data.List.Induction

/-!
# Label-driven machines and their runs

A machine is an initial state and an executable step function; a label is everything the
environment chooses (which party moves, the input it reads, a random draw). `Reach ok` is
reachability by steps that all satisfy a side condition `ok` on the state before the step and its
label; plain reachability takes `ok` to be true everywhere.
-/

namespace Lib

universe u v

structure Machine (σ : Type u) (α : Type v) where
  init : σ
  step : σ → α → Option σ

namespace Machine

variable {σ : Type u} {α : Type v} (M : Machine σ α)

/-- The state is reached by steps that all satisfy `ok`. -/
inductive Reach (ok : σ → α → Prop) : σ → Prop
  | init : Reach ok M.init
  | step {s s' : σ} {a : α} : Reach ok s → ok s a → M.step s a = some s' → Reach ok s'

/-- No side condition. -/
def Any : σ → α → Prop := fun _ _ => True

variable {M} {ok : σ → α → Prop}

/-- The invariant rule. The step obligation may use that the state before it is reachable, so
invariants proved earlier are available. -/
theorem Reach.invariant {I : σ → Prop} (h0 : I M.init)
    (hstep : ∀ s a s', M.Reach ok s → I s → ok s a → M.step s a = some s' → I s') {s : σ}
    (hr : M.Reach ok s) : I s := by
  induction hr with
  | init => exact h0
  | step hr ha hs ih => exact hstep _ _ _ hr ih ha hs

theorem Reach.mono {ok' : σ → α → Prop} (h : ∀ s a, ok s a → ok' s a) {s : σ} (hr : M.Reach ok s) :
    M.Reach ok' s := by
  induction hr with
  | init => exact .init
  | step _ ha hs ih => exact ih.step (h _ _ ha) hs

/-! ## Executing a schedule -/

variable (M)

/-- Runs a list of labels from `s`, checking `ok` before each step. -/
def runFrom (ok : σ → α → Prop) [∀ s a, Decidable (ok s a)] : σ → List α → Option σ
  | s, [] => some s
  | s, a :: as => if ok s a then (M.step s a).bind fun s' => runFrom ok s' as else none

/-- Runs a list of labels from the initial state. -/
def run (as : List α) : Option σ :=
  as.foldlM M.step M.init

variable {M}

theorem reach_of_foldlM {s t : σ} {as : List α} (hs : M.Reach Any s)
    (h : as.foldlM M.step s = some t) : M.Reach Any t := by
  induction as generalizing s with
  | nil =>
    simp only [List.foldlM_nil, Option.pure_def, Option.some.injEq] at h
    exact h ▸ hs
  | cons a as ih =>
    simp only [List.foldlM_cons, Option.bind_eq_bind, Option.bind_eq_some_iff] at h
    obtain ⟨s', hs', ht⟩ := h
    exact ih (.step hs trivial hs') ht

theorem reach_of_run {s : σ} {as : List α} (h : M.run as = some s) : M.Reach Any s :=
  reach_of_foldlM .init h

theorem reach_of_runFrom [∀ s a, Decidable (ok s a)] {s t : σ} {as : List α} (hs : M.Reach ok s)
    (h : M.runFrom ok s as = some t) : M.Reach ok t := by
  induction as generalizing s with
  | nil =>
    simp only [runFrom, Option.some.injEq] at h
    exact h ▸ hs
  | cons a as ih =>
    simp only [runFrom] at h
    split at h
    · rename_i ha
      obtain ⟨s', hs', ht⟩ := Option.bind_eq_some_iff.mp h
      exact ih (.step hs ha hs') ht
    · simp at h

/-- The state a schedule ends in is reachable under `ok`. -/
theorem reach_get [∀ s a, Decidable (ok s a)] {as : List α}
    (h : (M.runFrom ok M.init as).isSome = true) :
    M.Reach ok ((M.runFrom ok M.init as).get h) :=
  reach_of_runFrom .init (Option.some_get h).symm

/-! ## Whole runs -/

/-- One step of a run. -/
structure Transition (σ : Type u) (α : Type v) where
  before : σ
  label  : α
  after  : σ

variable (M)

/-- The steps of a run from the initial state, the first one first, and the state it ends in. -/
inductive Trace : List (Transition σ α) → σ → Prop
  | nil : Trace [] M.init
  | snoc {l : List (Transition σ α)} {s s' : σ} {a : α} :
      Trace l s → M.step s a = some s' → Trace (l ++ [⟨s, a, s'⟩]) s'

variable {M}

theorem Trace.reach {l : List (Transition σ α)} {s : σ} (h : M.Trace l s) : M.Reach Any s := by
  induction h with
  | nil => exact .init
  | snoc _ hs ih => exact .step ih trivial hs

/-- A run whose steps are all allowed. -/
theorem Trace.reach_steps {l : List (Transition σ α)} {s : σ} (h : M.Trace l s)
    (hok : ∀ t ∈ l, ok t.before t.label) : M.Reach ok s := by
  induction h with
  | nil => exact .init
  | @snoc l s s' a _ hs ih =>
    exact (ih fun t ht => hok t (List.mem_append_left _ ht)).step (hok ⟨s, a, s'⟩ (by simp)) hs

theorem Reach.trace {s : σ} (h : M.Reach ok s) : ∃ l, M.Trace l s := by
  induction h with
  | init => exact ⟨[], .nil⟩
  | step _ _ hs ih =>
    obtain ⟨l, hl⟩ := ih
    exact ⟨_, hl.snoc hs⟩

/-- Every step of a run starts in a reachable state. -/
theorem Trace.mem {l : List (Transition σ α)} {s : σ} (h : M.Trace l s) {t : Transition σ α}
    (ht : t ∈ l) : M.Reach Any t.before ∧ M.step t.before t.label = some t.after := by
  induction h with
  | nil => simp at ht
  | snoc hl hs ih =>
    obtain ht | ht := List.mem_append.mp ht
    · exact ih ht
    · obtain rfl := List.mem_singleton.mp ht
      exact ⟨hl.reach, hs⟩

theorem Trace.of_nil {s : σ} (h : M.Trace [] s) : s = M.init := by
  generalize hl : [] = l at h
  cases h with
  | nil => rfl
  | snoc _ _ => simp at hl

/-- The last step of a run. -/
theorem Trace.last {l : List (Transition σ α)} {t : Transition σ α} {s : σ}
    (h : M.Trace (l ++ [t]) s) :
    M.Trace l t.before ∧ M.step t.before t.label = some t.after ∧ s = t.after := by
  generalize hl : l ++ [t] = l' at h
  cases h with
  | nil => simp at hl
  | snoc htr hs =>
    obtain ⟨rfl, ht⟩ := List.append_inj' hl rfl
    obtain rfl := List.singleton_inj.mp ht
    exact ⟨htr, hs, rfl⟩

/-- The first steps of a run are a run. -/
theorem Trace.front {l l' : List (Transition σ α)} {s : σ} (h : M.Trace (l ++ l') s) :
    ∃ s', M.Trace l s' := by
  induction l' using List.reverseRecOn generalizing s with
  | nil => exact ⟨s, l.append_nil ▸ h⟩
  | append_singleton l' t ih => exact ih (Trace.last (List.append_assoc l l' [t] ▸ h)).1

/-- Any step of a run: what comes before it is a run, and so is all up to it. -/
theorem Trace.at {l : List (Transition σ α)} {s : σ} (h : M.Trace l s) {n : Nat} {t : Transition σ α}
    (ht : l[n]? = some t) : M.Trace (l.take n) t.before ∧ M.Trace (l.take (n + 1)) t.after ∧
      M.step t.before t.label = some t.after := by
  have htake : l.take (n + 1) = l.take n ++ [t] := by rw [List.take_add_one, ht]; rfl
  obtain ⟨s', hs'⟩ := Trace.front ((List.take_append_drop (n + 1) l).symm ▸ h)
  obtain ⟨hbefore, hstep, rfl⟩ := Trace.last (htake ▸ hs')
  exact ⟨hbefore, hs', hstep⟩

/-- What no step undoes holds from the step that brought it about to the end of the run. -/
theorem Trace.persists {P : σ → Prop}
    (hstep : ∀ s a s', M.Reach Any s → P s → M.step s a = some s' → P s')
    {l : List (Transition σ α)} {s : σ} (h : M.Trace l s) {t : Transition σ α} (ht : t ∈ l)
    (hP : P t.after) : P s := by
  induction h with
  | nil => simp at ht
  | snoc hl hs ih =>
    obtain ht | ht := List.mem_append.mp ht
    · exact hstep _ _ _ hl.reach (ih ht) hs
    · obtain rfl := List.mem_singleton.mp ht
      exact hP

variable (M)

/-- The steps of a schedule from `s`, and the state it ends in. -/
def stepsFrom : σ → List α → Option (List (Transition σ α) × σ)
  | s, [] => some ([], s)
  | s, a :: as => (M.step s a).bind fun s' =>
      (stepsFrom s' as).map fun p => (⟨s, a, s'⟩ :: p.1, p.2)

variable {M}

theorem trace_of_stepsFrom {l l' : List (Transition σ α)} {s t : σ} {as : List α}
    (hl : M.Trace l s) (h : M.stepsFrom s as = some (l', t)) : M.Trace (l ++ l') t := by
  induction as generalizing l l' s with
  | nil =>
    simp only [stepsFrom, Option.some.injEq, Prod.mk.injEq] at h
    obtain ⟨rfl, rfl⟩ := h
    simpa using hl
  | cons a as ih =>
    simp only [stepsFrom, Option.bind_eq_some_iff, Option.map_eq_some_iff] at h
    obtain ⟨s', hs', ⟨l₁, t₁⟩, h₁, he⟩ := h
    cases he
    simpa using ih (hl.snoc hs') h₁

theorem labels_stepsFrom {l : List (Transition σ α)} {s t : σ} {as : List α}
    (h : M.stepsFrom s as = some (l, t)) : l.map (·.label) = as := by
  induction as generalizing l s with
  | nil =>
    simp only [stepsFrom, Option.some.injEq, Prod.mk.injEq] at h
    rw [← h.1, List.map_nil]
  | cons a as ih =>
    simp only [stepsFrom, Option.bind_eq_some_iff, Option.map_eq_some_iff] at h
    obtain ⟨s', -, ⟨l₁, t₁⟩, h₁, he⟩ := h
    cases he
    rw [List.map_cons, ih h₁]

/-- The steps of a schedule are a run. -/
theorem trace_get {as : List α} (h : (M.stepsFrom M.init as).isSome = true) :
    M.Trace ((M.stepsFrom M.init as).get h).1 ((M.stepsFrom M.init as).get h).2 :=
  trace_of_stepsFrom .nil (Option.some_get h).symm

end Machine
end Lib
