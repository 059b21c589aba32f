/-!
# Computations that can fail

How a sequence of two computations is taken apart. It succeeds exactly if both of them do, and it
fails exactly if the first one does or the second one does with the result of the first.
-/

namespace Chip8

variable {ε α β : Type}

/-- A sequence of two computations succeeds exactly when both of them do. -/
theorem bind_eq_ok_iff {x : Except ε α} {f : α → Except ε β} {b : β} :
    x >>= f = .ok b ↔ ∃ a, x = .ok a ∧ f a = .ok b := by
  cases x with
  | error e => simp [bind, Except.bind]
  | ok a => simp [bind, Except.bind]

/-- A sequence of two computations fails exactly when the first one or the second one does. -/
theorem bind_eq_error_iff {x : Except ε α} {f : α → Except ε β} {e : ε} :
    x >>= f = .error e ↔ x = .error e ∨ ∃ a, x = .ok a ∧ f a = .error e := by
  cases x with
  | error e' => simp [bind, Except.bind]
  | ok a => simp [bind, Except.bind]

/-- A computation whose result is only put into place fails exactly when it does itself. -/
theorem bind_pure_eq_error_iff {x : Except ε α} {f : α → β} {e : ε} :
    (x >>= fun a => pure (f a)) = .error e ↔ x = .error e := by
  simp [bind_eq_error_iff, pure, Except.pure]

/-- Whether a computation succeeds with a result can be looked up. -/
theorem toOption_eq_some_iff {x : Except ε α} {a : α} :
    x.toOption = some a ↔ x = .ok a := by
  cases x with
  | error e => simp [Except.toOption]
  | ok b => simp [Except.toOption]

/-- What follows a check is carried out exactly if the check passes. -/
theorem check_bind_eq_ok_iff {check : Except ε Unit} {f : Unit → Except ε β} {b : β} :
    check >>= f = .ok b ↔ check = .ok () ∧ f () = .ok b := by
  rw [bind_eq_ok_iff]
  constructor
  · rintro ⟨⟨⟩, hcheck, hf⟩
    exact ⟨hcheck, hf⟩
  · rintro ⟨hcheck, hf⟩
    exact ⟨(), hcheck, hf⟩

end Chip8
