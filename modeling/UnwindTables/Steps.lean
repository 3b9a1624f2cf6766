/-
UnwindTables.Steps — what a sequence of steps that may fail establishes.

* `Steps.bind_eq_ok` — a sequence succeeds exactly when each of its steps does.
* `Steps.bind_eq_error` — it fails exactly when one of them does, with the fault of the first one.
* `Steps.bind_pure_eq_error` — a last step that does nothing does not fail.
* `Steps.pure_eq_ok`, `Steps.throw_ne_ok` — its last step.

Readers and writers are such sequences, so what holds after a success is read off step by step.
-/

namespace UnwindTables.Steps

variable {ε α β : Type}

/-- A sequence succeeds exactly when its first step does and the rest does with its result. -/
theorem bind_eq_ok {first : Except ε α} {next : α → Except ε β} {result : β} :
    (first >>= next) = .ok result ↔ ∃ value, first = .ok value ∧ next value = .ok result := by
  cases first <;> simp [bind, Except.bind]

/-- A sequence fails exactly when its first step does, or the rest does with its result. -/
theorem bind_eq_error {first : Except ε α} {next : α → Except ε β} {fault : ε} :
    (first >>= next) = .error fault ↔
      first = .error fault ∨ ∃ value, first = .ok value ∧ next value = .error fault := by
  cases first <;> simp [bind, Except.bind]

theorem bind_pure_eq_error {first : Except ε α} {next : α → β} {fault : ε} :
    (first >>= fun value => pure (next value)) = .error fault ↔ first = .error fault := by
  cases first <;> simp [bind, Except.bind, pure, Except.pure]

/-- A step that does nothing succeeds with the value it is given. -/
theorem pure_eq_ok {value result : α} :
    (pure value : Except ε α) = .ok result ↔ value = result := by
  simp [pure, Except.pure]

/-- A step that fails does not succeed. -/
theorem throw_ne_ok {fault : ε} {result : α} : (throw fault : Except ε α) ≠ .ok result := by
  simp [throw, throwThe, MonadExceptOf.throw]

end UnwindTables.Steps
