/-!
# Steps one after the other

Most of what is computed is a chain of steps: steps that may fail, or steps that work on a tree of files.
A chain of the first kind succeeds iff each step does; in a chain of the second kind a step whose run is
known can be taken.
-/

namespace CaptureIngest

/-- Of two steps one after the other the second succeeds iff both do. -/
theorem bind_eq_ok_iff {ε α β : Type} {step : Except ε α} {next : α → Except ε β} {b : β} :
    step >>= next = .ok b ↔ ∃ a, step = .ok a ∧ next a = .ok b := by
  cases step <;> simp [bind, Except.bind]

/-- What is made of the result of a step is there iff the step succeeds. -/
theorem map_eq_ok_iff {ε α β : Type} {r : Except ε α} {g : α → β} {y : β} :
    r.map g = .ok y ↔ ∃ x, r = .ok x ∧ g x = y := by
  cases r <;> simp [Except.map]

/-- A step whose run is known is taken. -/
theorem run_bind_of_run {σ α β : Type} {step : StateM σ α} {next : α → StateM σ β} {s s' : σ} {a : α}
    (h : step.run s = (a, s')) : (step >>= next).run s = (next a).run s' := by
  rw [StateT.run_bind, h]
  rfl

end CaptureIngest
