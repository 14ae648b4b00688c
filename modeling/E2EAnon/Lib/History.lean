import Mathlib.Data.List.Infix

/-!
# Histories

A history is a list of events, the newest first. `Past log e l`: the event `e` is in `log`, and
`l` is what had happened before it. A statement of the form "whenever `e` happened, `P` held of the
history at that moment" is kept by adding an event as soon as it holds of that event.
-/

namespace Lib

variable {ε : Type*} {log l l' : List ε} {e x y : ε}

def Past (log : List ε) (e : ε) (l : List ε) : Prop := e :: l <:+ log

@[simp] theorem not_past_nil : ¬ Past [] e l := by
  simp [Past]

@[simp] theorem past_cons : Past (x :: log) e l ↔ (e = x ∧ l = log) ∨ Past log e l := by
  simp [Past, List.suffix_cons_iff]

theorem Past.cons (h : Past log e l) (x : ε) : Past (x :: log) e l :=
  past_cons.mpr (.inr h)

theorem Past.mem (h : Past log e l) : e ∈ log :=
  List.IsSuffix.subset h (by simp)

theorem exists_past_of_mem (h : e ∈ log) : ∃ l, Past log e l := by
  obtain ⟨s, t, rfl⟩ := List.append_of_mem h
  exact ⟨t, s, rfl⟩

/-- What had happened before something past is past. -/
theorem Past.trans (h : Past log x l) (h' : Past l y l') : Past log y l' :=
  List.IsSuffix.trans (List.IsSuffix.trans h' (List.suffix_cons x l)) h

end Lib
