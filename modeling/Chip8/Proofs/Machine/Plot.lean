import Mathlib.Data.List.Nodup
import Mathlib.Data.List.ProdSigma
import Chip8.Proofs.Machine.Draw
import Chip8.Proofs.Sprite

/-!
# Drawing pixel by pixel

A sprite can also be drawn by a loop over its bits, row by row from the left, that toggles the pixel
of every set bit on the spot and notes a collision whenever the pixel was lit just before. No two
bits of a sprite fall on the same pixel, so the loop and the mask that is toggled in one go leave the
same screen and the same flag.
-/

namespace Chip8

/-- A pixel of the screen, by its column and its row. -/
abbrev Place := Fin screenWidth × Fin screenHeight

namespace Screen

variable {s : Screen} {p q : Place} {places : List Place}

/-- Toggle one pixel. -/
def toggle (s : Screen) (p : Place) : Screen :=
  ofFn fun x y => if (x, y) = p then !s.pixel x y else s.pixel x y

/-- The screen on which exactly the pixels of a list are lit. -/
def lighting (places : List Place) : Screen := ofFn fun x y => decide ((x, y) ∈ places)

@[simp] theorem pixel_toggle (s : Screen) (p : Place) (x : Fin screenWidth)
    (y : Fin screenHeight) :
    (s.toggle p).pixel x y = if (x, y) = p then !s.pixel x y else s.pixel x y := by
  simp [toggle]

@[simp] theorem pixel_lighting (places : List Place) (x : Fin screenWidth) (y : Fin screenHeight)
    [Decidable ((x, y) ∈ places)] :
    (lighting places).pixel x y = decide ((x, y) ∈ places) := by
  simp [lighting]

theorem xor_lighting_nil (s : Screen) : s.xor (lighting []) = s := by
  apply Screen.ext
  intro x y
  simp

theorem meets_lighting_nil (s : Screen) : s.meets (lighting []) = false := by
  rw [Bool.eq_false_iff, ne_eq, meets_iff]
  simp

/-- Toggling one more pixel adds it to the picture that is toggled. -/
theorem toggle_xor_lighting (hp : p ∉ places) (s : Screen) :
    (s.toggle p).xor (lighting places) = s.xor (lighting (p :: places)) := by
  apply Screen.ext
  intro x y
  simp only [pixel_xor, pixel_toggle, pixel_lighting, List.mem_cons]
  by_cases h : (x, y) = p
  · subst h
    simp [hp]
  · simp [h]

/-- A pixel that is lit before it is toggled is a meeting with the picture that it is added to. -/
theorem meets_lighting_cons (hp : p ∉ places) (s : Screen) :
    (s.pixel p.1 p.2 || (s.toggle p).meets (lighting places)) = s.meets (lighting (p :: places)) := by
  rw [Bool.eq_iff_iff, Bool.or_eq_true, meets_iff, meets_iff]
  simp only [pixel_toggle, pixel_lighting, decide_eq_true_eq, List.mem_cons]
  constructor
  · rintro (hlit | ⟨x, y, hlit, hmem⟩)
    · exact ⟨p.1, p.2, hlit, Or.inl rfl⟩
    · have hne : (x, y) ≠ p := by
        rintro rfl
        exact hp hmem
      rw [if_neg hne] at hlit
      exact ⟨x, y, hlit, Or.inr hmem⟩
  · rintro ⟨x, y, hlit, rfl | hmem⟩
    · exact Or.inl hlit
    · have hne : (x, y) ≠ p := by
        rintro rfl
        exact hp hmem
      refine Or.inr ⟨x, y, ?_, hmem⟩
      rw [if_neg hne]
      exact hlit

/-- The pixel at two coordinates. Past the right or the bottom edge there is none, unless
coordinates wrap. -/
def place? (wraps : Bool) (x y : Nat) : Option Place :=
  if wraps then
    some (⟨x % screenWidth, Nat.mod_lt x (by decide)⟩, ⟨y % screenHeight, Nat.mod_lt y (by decide)⟩)
  else if h : x < screenWidth ∧ y < screenHeight then some (⟨x, h.1⟩, ⟨y, h.2⟩)
  else none

/-- A bit falls on the pixel at its coordinates. -/
theorem place?_eq_some_iff {wraps : Bool} {x y column row : Nat} {i : Fin screenWidth}
    {j : Fin screenHeight} :
    place? wraps (x + column) (y + row) = some (i, j) ↔ Sprite.Lands wraps x y column row i j := by
  unfold place? Sprite.Lands
  cases wraps with
  | true =>
    simp only [ite_true, Option.some.injEq, Prod.mk.injEq, Fin.ext_iff, screenWidth, screenHeight]
    omega
  | false =>
    simp only [Bool.false_eq_true, ite_false]
    by_cases h : x + column < screenWidth ∧ y + row < screenHeight
    · simp only [dif_pos h, Option.some.injEq, Prod.mk.injEq, Fin.ext_iff]
      omega
    · simp only [dif_neg h, reduceCtorEq, false_iff]
      omega

end Screen

/-- A screen that is being drawn on, and whether a lit pixel has been struck so far. -/
structure Canvas where
  /-- The pixels at this moment. -/
  screen : Screen
  /-- Whether any pixel was lit when it was struck. -/
  collided : Bool
  deriving DecidableEq

namespace Canvas

variable {canvas : Canvas} {wraps : Bool} {byte : Nat → UInt8} {x y height : Nat}

/-- Note whether a pixel is lit, then toggle it. -/
def strike (canvas : Canvas) (p : Place) : Canvas :=
  ⟨canvas.screen.toggle p, canvas.collided || canvas.screen.pixel p.1 p.2⟩

/-- Strike the pixel at two coordinates, if there is one. -/
def strikeAt (wraps : Bool) (canvas : Canvas) (x y : Nat) : Canvas :=
  match Screen.place? wraps x y with
  | none => canvas
  | some p => canvas.strike p

/-- Draw one row of a sprite, bit by bit from the left. -/
def plotRow (wraps : Bool) (byte : UInt8) (x y : Nat) (canvas : Canvas) : Canvas :=
  (List.range spriteWidth).foldl
    (fun canvas column =>
      if byte.toNat.testBit (spriteWidth - 1 - column) then canvas.strikeAt wraps (x + column) y
      else canvas)
    canvas

/-- Draw a sprite row by row. -/
def plot (wraps : Bool) (byte : Nat → UInt8) (height x y : Nat) (canvas : Canvas) : Canvas :=
  (List.range height).foldl
    (fun canvas row => canvas.plotRow wraps (byte row) x (y + row))
    canvas

/-- Striking different pixels one after another toggles all of them at once, and a lit one is met on
the way exactly if one of them was lit at first. -/
theorem foldl_strike {places : List Place} (h : places.Nodup) (canvas : Canvas) :
    places.foldl strike canvas =
      ⟨canvas.screen.xor (.lighting places),
        canvas.collided || canvas.screen.meets (.lighting places)⟩ := by
  induction places generalizing canvas with
  | nil =>
    rw [Screen.xor_lighting_nil, Screen.meets_lighting_nil, Bool.or_false]
    rfl
  | cons p places ih =>
    obtain ⟨hp, hplaces⟩ := List.nodup_cons.mp h
    rw [List.foldl_cons, ih hplaces, strike, Screen.toggle_xor_lighting hp, Bool.or_assoc,
      Screen.meets_lighting_cons hp]

/-- The bits of a sprite in the order in which they are drawn, by row and column. -/
def bits (height : Nat) : List (Nat × Nat) := List.range height ×ˢ List.range spriteWidth

/-- The pixel on which a bit of a sprite falls, if it is set and falls on the screen. -/
def struck? (wraps : Bool) (byte : Nat → UInt8) (x y : Nat) (bit : Nat × Nat) : Option Place :=
  if (byte bit.1).toNat.testBit (spriteWidth - 1 - bit.2) then
    Screen.place? wraps (x + bit.2) (y + bit.1)
  else none

/-- Drawing a sprite strikes the pixels of its bits in order. -/
theorem plot_eq_foldl (canvas : Canvas) :
    canvas.plot wraps byte height x y =
      ((bits height).filterMap (struck? wraps byte x y)).foldl strike canvas := by
  simp only [plot, plotRow, bits, SProd.sprod, List.product, List.foldl_filterMap,
    List.foldl_flatMap, List.foldl_map]
  apply List.foldl_ext
  intro canvas row _
  apply List.foldl_ext
  intro canvas column _
  by_cases h : (byte row).toNat.testBit (spriteWidth - 1 - column) = true
  · simp only [if_pos h, struck?, strikeAt]
    cases Screen.place? wraps (x + column) (y + row) with
    | none => rfl
    | some p => rfl
  · simp only [if_neg h, struck?]

/-- A bit falls on a pixel exactly if it is set and lands there. -/
theorem struck?_eq_some_iff {row column : Nat} {i : Fin screenWidth} {j : Fin screenHeight} :
    struck? wraps byte x y (row, column) = some (i, j) ↔
      (byte row).toNat.testBit (spriteWidth - 1 - column) = true ∧
        Sprite.Lands wraps x y column row i j := by
  rw [← Screen.place?_eq_some_iff]
  simp only [struck?, Option.ite_none_right_eq_some]

/-- Two bits of a sprite that is no taller than the screen do not fall on the same pixel. -/
theorem nodup_struck (hheight : height ≤ screenHeight) :
    ((bits height).filterMap (struck? wraps byte x y)).Nodup := by
  have hbits : (bits height).Nodup := List.Nodup.product List.nodup_range List.nodup_range
  rw [List.Nodup, List.pairwise_filterMap]
  refine hbits.imp_of_mem ?_
  rintro ⟨row, column⟩ ⟨row', column'⟩ hmem hmem' hne ⟨i, j⟩ hp q hq rfl
  obtain ⟨-, hlands⟩ := struck?_eq_some_iff.mp hp
  obtain ⟨-, hlands'⟩ := struck?_eq_some_iff.mp hq
  simp only [bits, List.mem_product, List.mem_range] at hmem hmem'
  obtain ⟨hcolumn, hrow⟩ := hlands.unique hlands' hmem.2 hmem'.2
    (Nat.lt_of_lt_of_le hmem.1 hheight) (Nat.lt_of_lt_of_le hmem'.1 hheight)
  exact hne (Prod.ext_iff.mpr ⟨hrow, hcolumn⟩)

/-- The pixels that a sprite strikes are those of its mask. -/
theorem lighting_struck {rows : List UInt8} (hlength : rows.length = height)
    (hheight : height ≤ screenHeight) (hrows : ∀ row < height, rows[row]?.getD 0 = byte row) :
    Screen.lighting ((bits height).filterMap (struck? wraps byte x y)) =
      Sprite.mask rows x y wraps := by
  have hfits : rows.length ≤ screenHeight := by
    rw [hlength]
    exact hheight
  apply Screen.ext
  intro i j
  rw [Bool.eq_iff_iff, Sprite.pixel_mask_iff hfits, Screen.pixel_lighting, decide_eq_true_iff,
    List.mem_filterMap, hlength]
  simp only [Prod.exists, bits, List.mem_product, List.mem_range, struck?_eq_some_iff]
  constructor
  · rintro ⟨row, column, ⟨hrow, hcolumn⟩, hset, hlands⟩
    refine ⟨column, row, hcolumn, hrow, ?_, hlands⟩
    rw [hrows row hrow]
    exact hset
  · rintro ⟨column, row, hcolumn, hrow, hset, hlands⟩
    rw [hrows row hrow] at hset
    exact ⟨row, column, ⟨hrow, hcolumn⟩, hset, hlands⟩

/-- The loop over the bits of a sprite toggles its mask and notes whether it met a lit pixel. -/
theorem plot_eq_mask {rows : List UInt8} (hlength : rows.length = height)
    (hheight : height ≤ screenHeight) (hrows : ∀ row < height, rows[row]?.getD 0 = byte row)
    (s : Screen) :
    plot wraps byte height x y ⟨s, false⟩ =
      ⟨s.xor (Sprite.mask rows x y wraps), s.meets (Sprite.mask rows x y wraps)⟩ := by
  rw [plot_eq_foldl, foldl_strike (nodup_struck hheight), lighting_struck hlength hheight hrows,
    Bool.false_or]

end Canvas

namespace Machine

/-- The screen and the collisions of a draw, pixel by pixel. The corner is at the coordinates in two
registers, reduced to the screen, and the rows are the bytes from the index on. -/
def plot (m : Machine) (x y : Fin registerCount) (height : Nat) : Canvas :=
  Canvas.plot m.dialect.drawWraps (fun row => m.memory.get (Memory.slot (m.index.toNat + row : Nat)))
    height ((m.register x).toNat % screenWidth) ((m.register y).toNat % screenHeight)
    ⟨m.screen, false⟩

/-- The loop of a draw toggles its mask and notes whether it met a lit pixel. -/
theorem plot_eq_spriteMask (m : Machine) (i : Instruction) :
    m.plot i.x i.y i.n =
      ⟨m.screen.xor (m.spriteMask i), m.screen.meets (m.spriteMask i)⟩ := by
  have hheight : i.n.val ≤ screenHeight := Nat.le_trans (Nat.le_of_lt i.n.isLt) (by decide)
  refine Canvas.plot_eq_mask (m.memory.length_run _ _) hheight ?_ m.screen
  intro row hrow
  rw [Memory.getElem?_run _ hrow, Option.getD_some]

/-- A draw whose sprite ends inside memory does what the loop over the bits of its sprite does. It
succeeds, shows the screen that the loop leaves, flags whether the loop struck a lit pixel and changes
nothing else, whichever registers hold the coordinates. An empty sprite changes no pixel and clears
the flag. -/
theorem execute_draw_eq_plot (m : Machine) (x y : Fin 16) (n : Fin 16)
    (hend : m.index.toNat + n.val ≤ 4096) :
    m.execute (Op.drawWord x y n) = .ok { m with
      screen := (m.plot x y n.val).screen
      registers := m.registers.set flagRegister (m.plot x y n.val).collided.toUInt8 } ∧
    m.plot x y 0 = ⟨m.screen, false⟩ := by
  constructor
  · obtain ⟨i, hi, hop, rfl, rfl, rfl⟩ := Op.decode_drawWord x y n
    rw [execute, hi, plot_eq_spriteMask]
    apply (perform_draw_eq_ok_iff hop).mpr
    refine ⟨hend, ?_⟩
    simp only [setFlag, setRegister]
  · rfl

/-- A row of a glyph that starts in the lower right corner, with both coordinates in the flag
register, comes back on the left and strikes a lit pixel there. The flag comes in afterwards. -/
theorem execute_draw_across_edge :
    ∃ m : Machine, m = { Machine.initial ⟨0, 0⟩ { Dialect.cosmac with drawWraps := true } with
        index := 0x050
        registers := Vector.replicate 16 0xFF
        screen := Screen.blank.toggle (0, 31) } ∧
      m.index.toNat + (1 : Fin 16).val ≤ 4096 ∧
      m.execute (Op.drawWord 15 15 1) = .ok { m with
        screen := (m.plot 15 15 1).screen
        registers := m.registers.set flagRegister 1 } ∧
      (m.plot 15 15 1).screen.pixel 63 31 = true ∧ (m.plot 15 15 1).screen.pixel 0 31 = false := by
  obtain ⟨m, hm⟩ : ∃ m : Machine, m =
    { Machine.initial ⟨0, 0⟩ { Dialect.cosmac with drawWraps := true } with
      index := 0x050
      registers := Vector.replicate 16 0xFF
      screen := Screen.blank.toggle (0, 31) } := ⟨_, rfl⟩
  obtain ⟨hend, hflag, hright, hleft⟩ : m.index.toNat + (1 : Fin 16).val ≤ 4096 ∧
      (m.plot 15 15 (1 : Fin 16).val).collided = true ∧
      (m.plot 15 15 1).screen.pixel 63 31 = true ∧
      (m.plot 15 15 1).screen.pixel 0 31 = false := by
    rw [hm]
    decide +kernel
  obtain ⟨hexecute, -⟩ := execute_draw_eq_plot m 15 15 1 hend
  rw [hflag] at hexecute
  exact ⟨m, hm, hend, hexecute, hright, hleft⟩

end Machine

end Chip8
