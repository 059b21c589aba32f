import Chip8.Proofs.Machine.Cycle
import Chip8.Proofs.Screen

/-!
# What a draw does

A draw toggles the mask of its sprite on the screen and flags whether the mask met a lit pixel. If
the flag register holds neither of its coordinates, the same draw right after it has the same mask
and so restores the screen.
-/

namespace Chip8

namespace Op

/-- The word that draws a sprite of `n` rows at the coordinates in two registers. -/
def drawWord (x y : Fin registerCount) (n : Fin 16) : Nat :=
  0xD000 + 256 * x.val + 16 * y.val + n.val

/-- The word of a draw decodes to the draw of its operands. -/
theorem decode_drawWord (x y : Fin registerCount) (n : Fin 16) :
    ∃ i, decode (drawWord x y n) = .ok i ∧ i.op = .draw ∧ i.x = x ∧ i.y = y ∧ i.n = n := by
  have hx := x.isLt
  have hy := y.isLt
  simp only [registerCount] at hx hy
  have hfamily : drawWord x y n / 4096 = 13 := by
    unfold drawWord
    omega
  have hop : ofWord? (drawWord x y n) = some .draw := by simp only [ofWord?, hfamily]
  exact decode_digits (f := 13) rfl hop

end Op

namespace Machine

variable {m n : Machine} {i : Instruction}

/-- The mask that a draw toggles: the sprite at the index, with its corner at the coordinates taken
from two registers and reduced to the screen. -/
def spriteMask (m : Machine) (i : Instruction) : Screen :=
  Sprite.mask (m.memory.run m.index.toNat i.n) ((m.register i.x).toNat % screenWidth)
    ((m.register i.y).toNat % screenHeight) m.dialect.drawWraps

/-- A mask depends on memory, the index, the registers and the dialect alone. -/
theorem spriteMask_congr (hmemory : n.memory = m.memory) (hindex : n.index = m.index)
    (hregisters : n.registers = m.registers) (hdialect : n.dialect = m.dialect)
    (i : Instruction) : n.spriteMask i = m.spriteMask i := by
  simp only [spriteMask, register, hmemory, hindex, hregisters, hdialect]

/-- A draw succeeds exactly if its sprite ends inside memory. -/
theorem perform_draw_eq_ok_iff (hop : i.op = .draw) :
    m.perform i = .ok n ↔ m.index.toNat + i.n ≤ memorySize ∧
      n = { m with screen := m.screen.xor (m.spriteMask i) }.setFlag
        (m.screen.meets (m.spriteMask i)) := by
  obtain ⟨op, word⟩ := i
  obtain rfl : op = .draw := hop
  change m.drawSprite _ _ _ = .ok n ↔ _
  rw [drawSprite_eq_ok_iff]
  constructor
  · rintro ⟨rows, hr, rfl⟩
    obtain ⟨hend, rfl⟩ := Memory.readBytes_eq_ok_iff.mp hr
    exact ⟨hend, rfl⟩
  · rintro ⟨hend, rfl⟩
    exact ⟨_, Memory.readBytes_eq_ok_iff.mpr ⟨hend, rfl⟩, rfl⟩

/-- A draw toggles its mask. -/
theorem screen_of_draw (hop : i.op = .draw) (h : m.perform i = .ok n) :
    n.screen = m.screen.xor (m.spriteMask i) := by
  obtain ⟨-, rfl⟩ := (perform_draw_eq_ok_iff hop).mp h
  rfl

/-- A draw flags whether its mask met a lit pixel. -/
theorem flag_of_draw (hop : i.op = .draw) (h : m.perform i = .ok n) :
    n.register flagRegister = (m.screen.meets (m.spriteMask i)).toUInt8 := by
  obtain ⟨-, rfl⟩ := (perform_draw_eq_ok_iff hop).mp h
  rw [setFlag, register_setRegister, if_pos rfl]

theorem toUInt8_eq_one_iff (flag : Bool) : flag.toUInt8 = 1 ↔ flag = true := by
  cases flag <;> decide

/-- A draw does not move the sprite that it draws unless the flag register holds a coordinate. -/
theorem spriteMask_of_draw (hop : i.op = .draw) (hx : i.x ≠ flagRegister)
    (hy : i.y ≠ flagRegister) (h : m.perform i = .ok n) : n.spriteMask i = m.spriteMask i := by
  obtain ⟨-, rfl⟩ := (perform_draw_eq_ok_iff hop).mp h
  have hkept (flag : Bool) {z : Fin registerCount} (hz : z ≠ flagRegister) :
      ({ m with screen := m.screen.xor (m.spriteMask i) }.setFlag flag).register z =
        m.register z := by
    rw [setFlag, register_setRegister, if_neg hz.symm]
    simp only [register]
  rw [spriteMask, hkept _ hx, hkept _ hy]
  rfl

/-- The same draw twice in a row restores the screen. The second one flags whether some pixel of the
mask was dark at first. -/
theorem draw_twice (hop : i.op = .draw) (hx : i.x ≠ flagRegister) (hy : i.y ≠ flagRegister)
    (hend : m.index.toNat + i.n ≤ memorySize) :
    ∃ first second, m.perform i = .ok first ∧ first.perform i = .ok second ∧
      second.screen = m.screen ∧
      (second.register flagRegister = 1 ↔
        ∃ x y, (m.spriteMask i).pixel x y = true ∧ m.screen.pixel x y = false) := by
  obtain ⟨first, hfirst⟩ : ∃ first, m.perform i = .ok first :=
    ⟨_, (perform_draw_eq_ok_iff hop).mpr ⟨hend, rfl⟩⟩
  have hindex : first.index = m.index := (frame_of_perform hfirst).index (by rw [hop]; rfl)
  obtain ⟨second, hsecond⟩ : ∃ second, first.perform i = .ok second :=
    ⟨_, (perform_draw_eq_ok_iff hop).mpr ⟨by rw [hindex]; exact hend, rfl⟩⟩
  have hmask : first.spriteMask i = m.spriteMask i := spriteMask_of_draw hop hx hy hfirst
  have hscreen : first.screen = m.screen.xor (m.spriteMask i) := screen_of_draw hop hfirst
  refine ⟨first, second, hfirst, hsecond, ?_, ?_⟩
  · rw [screen_of_draw hop hsecond, hmask, hscreen, Screen.xor_xor_cancel]
  · rw [flag_of_draw hop hsecond, hmask, hscreen, toUInt8_eq_one_iff, Screen.meets_xor_iff]

end Machine

end Chip8
