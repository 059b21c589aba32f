import Chip8.Screen

/-!
# Toggling pictures

Pictures that are toggled on a screen one after the other give the same result in any order, and a
picture that is toggled an even number of times leaves no trace.
-/

namespace Chip8.Screen

variable {s t : Screen} {pictures order : List Screen}

/-- A pixel changes exactly if it is toggled. -/
theorem pixel_xor_ne_iff {x : Fin screenWidth} {y : Fin screenHeight} :
    (s.xor t).pixel x y ≠ s.pixel x y ↔ t.pixel x y = true := by
  rw [pixel_xor]
  cases s.pixel x y <;> cases t.pixel x y <;> decide

/-- Two pictures are toggled in either order. -/
theorem xor_right_comm (s t u : Screen) : (s.xor t).xor u = (s.xor u).xor t := by
  apply Screen.ext
  intro x y
  simp only [pixel_xor, Bool.xor_right_comm]

/-- A picture that is toggled twice leaves no trace. -/
theorem xor_xor_cancel (s t : Screen) : (s.xor t).xor t = s := by
  apply Screen.ext
  intro x y
  simp only [pixel_xor, Bool.xor_assoc, Bool.xor_self, Bool.xor_false]

/-- What pictures leave on a screen does not depend on their order. -/
theorem foldl_xor_of_perm (h : order.Perm pictures) (s : Screen) :
    order.foldl xor s = pictures.foldl xor s :=
  h.foldl_eq' (fun t _ u _ s => s.xor_right_comm t u) s

/-- A picture that is toggled an even number of times in a row leaves no trace. -/
theorem foldl_xor_replicate (s t : Screen) (half : Nat) :
    (List.replicate (2 * half) t).foldl xor s = s := by
  induction half with
  | zero => rfl
  | succ half ih =>
    rw [Nat.mul_succ, List.replicate_succ, List.replicate_succ, List.foldl_cons, List.foldl_cons,
      xor_xor_cancel]
    exact ih

/-- A picture that is toggled an even number of times can be left out. -/
theorem foldl_xor_filter_ne (h : pictures.count t % 2 = 0) (s : Screen) :
    pictures.foldl xor s = (pictures.filter (· != t)).foldl xor s := by
  have hperm : (pictures.filter (· == t) ++ pictures.filter (· != t)).Perm pictures :=
    List.filter_append_perm (· == t) pictures
  have heven : pictures.count t = 2 * (pictures.count t / 2) := by omega
  rw [← foldl_xor_of_perm hperm, List.foldl_append, List.filter_beq, heven, foldl_xor_replicate]

/-- Two screens meet after a picture is toggled exactly where it had been dark before. -/
theorem meets_xor_iff (s t : Screen) :
    (s.xor t).meets t = true ↔ ∃ x y, t.pixel x y = true ∧ s.pixel x y = false := by
  rw [meets_iff]
  refine exists_congr fun x => exists_congr fun y => ?_
  rw [pixel_xor]
  cases s.pixel x y <;> cases t.pixel x y <;> decide

end Chip8.Screen
