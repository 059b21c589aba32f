import Chip8.Proofs.Machine.Draw
import Chip8.Proofs.Session.Storage
import Chip8.Proofs.Session.WellFormed
import Chip8.Proofs.Sprite

/-!
# The built-in digits

A program that points the index at the glyph of a register and draws five rows sees that digit,
whatever it has done before: the font lies below the part of memory that programs own, and every
glyph lies in the font.
-/

namespace Chip8

namespace Font

variable {d e : Int}

/-- The glyph of a number is that of its low digit alone. -/
theorem glyphAddress_eq_iff : glyphAddress d = glyphAddress e ↔ d % 16 = e % 16 := by
  simp only [glyphAddress, fontStart, glyphSize]
  omega

/-- Two glyphs are the same or do not share a byte. -/
theorem glyphAddress_disjoint (d e : Int) :
    glyphAddress d = glyphAddress e ∨ glyphAddress d + glyphSize ≤ glyphAddress e ∨
      glyphAddress e + glyphSize ≤ glyphAddress d := by
  simp only [glyphAddress, fontStart, glyphSize]
  omega

end Font

namespace Op

/-- The word that points the index at the glyph of a register. -/
def glyphWord (x : Fin registerCount) : Nat := 0xF029 + 256 * x.val

/-- The word of a glyph decodes to the glyph of its operand. -/
theorem decode_glyphWord (x : Fin registerCount) :
    ∃ i, decode (glyphWord x) = .ok i ∧ i.op = .glyph ∧ i.x = x := by
  refine decode_misc (b := 0x29) ?_ (by decide) rfl
  unfold glyphWord
  omega

end Op

namespace Machine

variable {m : Machine}

/-- The machine whose index points at the glyph of a register. -/
def atGlyph (m : Machine) (x : Fin registerCount) : Machine :=
  { m with index := UInt16.ofNat (Font.glyphAddress (m.register x).toNat) }

theorem execute_glyphWord (m : Machine) (x : Fin registerCount) :
    m.execute (Op.glyphWord x) = .ok (m.atGlyph x) := by
  obtain ⟨i, hi, hop, rfl⟩ := Op.decode_glyphWord x
  obtain ⟨op, word⟩ := i
  obtain rfl : op = .glyph := hop
  rw [execute, hi]
  rfl

/-- The index of a glyph is its address. -/
theorem toNat_index_atGlyph (m : Machine) (x : Fin registerCount) :
    (m.atGlyph x).index.toNat = Font.glyphAddress (m.register x).toNat := by
  obtain ⟨-, hend⟩ := Font.glyphAddress_bounds (m.register x).toNat
  refine Nat.mod_eq_of_lt (Nat.lt_of_le_of_lt (Nat.le_of_add_right_le hend) ?_)
  decide

end Machine

namespace Session

variable {s : Session}

/-- An intact font holds the rows of every digit. -/
theorem FontIntact.get_glyph (hs : s.FontIntact) (value : Nat) {row : Nat} (hrow : row < 5) :
    s.machine.memory.get (Memory.slot (Font.glyphAddress value + row : Nat)) =
      Font.rows[5 * (value % 16) + row]?.getD 0 := by
  have haddress : Font.glyphAddress value = 0x050 + 5 * (value % 16) := by
    simp only [Font.glyphAddress, fontStart, glyphSize]
    omega
  have hlt : Font.glyphAddress value + row < memorySize := by
    simp only [memorySize]
    omega
  have hfont : 0x050 ≤ Font.glyphAddress value + row ∧ Font.glyphAddress value + row < 0x0A0 := by
    omega
  have hoffset : Font.glyphAddress value + row - 0x050 = 5 * (value % 16) + row := by omega
  rw [Memory.slot_of_lt hlt, hs _ (Nat.lt_trans hfont.2 (by decide)), Machine.get_blankMemory,
    if_pos hfont, hoffset]

/-- In a session whose font is intact, five rows drawn at the glyph of a register are the rows of its
digit. -/
theorem FontIntact.draw_glyph (hs : s.FontIntact) (x a b : Fin registerCount) :
    ∃ drawn, (s.machine.atGlyph x).execute (Op.drawWord a b 5) = .ok drawn ∧
      ∀ p q, drawn.screen.pixel p q ≠ s.machine.screen.pixel p q ↔
        ∃ column row : Nat, column < 8 ∧ row < 5 ∧
          (Font.rows[5 * ((s.machine.register x).toNat % 16) + row]?.getD 0).toNat.testBit
            (7 - column) = true ∧
          Sprite.Lands s.machine.dialect.drawWraps ((s.machine.register a).toNat % 64)
            ((s.machine.register b).toNat % 32) column row p q := by
  obtain ⟨i, hi, hop, rfl, rfl, hn⟩ := Op.decode_drawWord a b 5
  have hindex := s.machine.toNat_index_atGlyph x
  obtain ⟨-, hend⟩ := Font.glyphAddress_bounds (s.machine.register x).toNat
  have hfits : (s.machine.atGlyph x).index.toNat + i.n ≤ memorySize := by
    rw [hindex, hn]
    exact Nat.le_trans hend (by decide)
  obtain ⟨drawn, hdrawn⟩ : ∃ drawn, (s.machine.atGlyph x).perform i = .ok drawn :=
    ⟨_, (Machine.perform_draw_eq_ok_iff hop).mpr ⟨hfits, rfl⟩⟩
  refine ⟨drawn, by rw [Machine.execute, hi]; exact hdrawn, fun p q => ?_⟩
  have hscreen : (s.machine.atGlyph x).screen = s.machine.screen := rfl
  rw [Machine.screen_of_draw hop hdrawn, hscreen, Screen.pixel_xor_ne_iff, Machine.spriteMask,
    Sprite.pixel_mask_iff (by rw [Memory.length_run, hn]; decide), Memory.length_run, hn, hindex]
  refine exists_congr fun column => exists_congr fun row => and_congr_right fun _ =>
    and_congr_right fun hrow => ?_
  have hmemory : (s.machine.atGlyph x).memory = s.machine.memory := rfl
  rw [Memory.getElem?_run _ hrow, Option.getD_some, hmemory, hs.get_glyph _ hrow]
  rfl

/-- A program can always draw the built-in digits. Whatever a host has asked of a session and
whatever its program has done, pointing the index at the glyph of a register and drawing five rows
succeeds and toggles exactly the pixels on which the bits of that digit fall. The glyph of a number is
that of its low digit alone, different glyphs share no byte, and all of them lie in the font. -/
theorem glyph_drawn_after_create (rom : Option (List UInt8)) (dialect : Dialect)
    (seed : Random.Block) (journal : Journal) (history : List Request) :
    (∀ x a b : Fin 16, ∃ m glyphed drawn,
      m = ((create rom dialect seed journal).2.after history).machine ∧
      m.execute (Op.glyphWord x) = .ok glyphed ∧ glyphed.execute (Op.drawWord a b 5) = .ok drawn ∧
      ∀ p q, drawn.screen.pixel p q ≠ m.screen.pixel p q ↔
        ∃ column row : Nat, column < 8 ∧ row < 5 ∧
          (Font.rows[5 * ((m.register x).toNat % 16) + row]?.getD 0).toNat.testBit (7 - column) =
            true ∧
          Sprite.Lands dialect.drawWraps ((m.register a).toNat % 64) ((m.register b).toNat % 32)
            column row p q) ∧
    ∀ d e : Int, (Font.glyphAddress d = Font.glyphAddress e ↔ d % 16 = e % 16) ∧
      (Font.glyphAddress d = Font.glyphAddress e ∨
        Font.glyphAddress d + 5 ≤ Font.glyphAddress e ∨
        Font.glyphAddress e + 5 ≤ Font.glyphAddress d) ∧
      0x050 ≤ Font.glyphAddress d ∧ Font.glyphAddress d + 5 ≤ 0x0A0 := by
  constructor
  · intro x a b
    have hfont := fontIntact_after_create rom dialect seed journal history
    have hdialect := (coherent_after_create rom dialect seed journal history).machine_dialect
    obtain ⟨drawn, hdrawn, hpixels⟩ := hfont.draw_glyph x a b
    rw [hdialect] at hpixels
    exact ⟨_, _, drawn, rfl, Machine.execute_glyphWord _ x, hdrawn, hpixels⟩
  · intro d e
    exact ⟨Font.glyphAddress_eq_iff, Font.glyphAddress_disjoint d e, Font.glyphAddress_bounds d⟩

end Session

end Chip8
