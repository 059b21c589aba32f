import Chip8.Proofs.Sprite
import Mathlib.Algebra.BigOperators.Fin
import Mathlib.Algebra.BigOperators.Intervals

/-!
# The pixels of a sprite

A mask that wraps lights as many pixels as bits of its sprite are set: the bits fall on different
pixels and none is lost. A mask that does not wrap is the mask of the same sprite without the bits
that fall off the screen.
-/

namespace Chip8

/-- The lit pixels of a screen, by column and row. -/
def Screen.litPixels (s : Screen) : Finset (Fin screenWidth × Fin screenHeight) :=
  Finset.univ.filter fun p => s.pixel p.1 p.2 = true

@[simp] theorem Screen.mem_litPixels (s : Screen) (p : Fin screenWidth × Fin screenHeight) :
    p ∈ s.litPixels ↔ s.pixel p.1 p.2 = true := by
  simp [litPixels]

namespace Sprite

variable {rows : List UInt8} {x y : Int} {column row : Nat}

/-- How many bits of a row are set. -/
def bitCount (row : UInt8) : Nat :=
  ((Finset.range spriteWidth).filter fun k => row.toNat.testBit k = true).card

/-- The bits of a sprite that are set, by column and row. -/
def setBits (rows : List UInt8) : Finset (Nat × Nat) :=
  (Finset.range spriteWidth ×ˢ Finset.range rows.length).filter fun b =>
    (rows[b.2]?.getD 0).toNat.testBit (spriteWidth - 1 - b.1) = true

theorem mem_setBits :
    (column, row) ∈ setBits rows ↔ column < spriteWidth ∧ row < rows.length ∧
      (rows[row]?.getD 0).toNat.testBit (spriteWidth - 1 - column) = true := by
  simp only [setBits, Finset.mem_filter, Finset.mem_product, Finset.mem_range, and_assoc]

/-- A sprite has the set bits of its rows. -/
theorem card_setBits (rows : List UInt8) : (setBits rows).card = (rows.map bitCount).sum := by
  rw [setBits, Finset.card_filter, Finset.sum_product_right, Finset.sum_range,
    ← Fin.sum_univ_fun_getElem]
  apply Finset.sum_congr rfl
  intro row _
  simp only [List.getElem?_eq_getElem row.isLt, Option.getD_some]
  rw [bitCount, Finset.card_filter]
  -- Columns are counted from the most significant bit, bits from the least.
  exact Finset.sum_range_reflect (fun k => if rows[row].toNat.testBit k = true then 1 else 0) _

/-- The pixel on which a bit of a sprite with its corner at `(x, y)` falls if the mask wraps. -/
def wrappedPlace (x y : Int) (b : Nat × Nat) : Fin screenWidth × Fin screenHeight :=
  (Fin.ofNat screenWidth ((x + b.1) % screenWidth).toNat,
    Fin.ofNat screenHeight ((y + b.2) % screenHeight).toNat)

theorem lands_iff_wrappedPlace (p : Fin screenWidth × Fin screenHeight) :
    Lands true x y column row p.1 p.2 ↔ wrappedPlace x y (column, row) = p := by
  obtain ⟨i, j⟩ := p
  simp only [Lands, ite_true, wrappedPlace, Prod.mk.injEq, Fin.ext_iff, Fin.val_ofNat, screenWidth,
    screenHeight]
  omega

/-- A mask that wraps lights the places of the set bits. -/
theorem litPixels_mask (hrows : rows.length ≤ screenHeight) (x y : Int) :
    (mask rows x y true).litPixels = (setBits rows).image (wrappedPlace x y) := by
  ext p
  rw [Screen.mem_litPixels, pixel_mask_iff hrows, Finset.mem_image, Prod.exists]
  simp only [mem_setBits, and_assoc, lands_iff_wrappedPlace]

/-- The set bits of a sprite fall on different pixels. -/
theorem injOn_wrappedPlace (hrows : rows.length ≤ screenHeight) (x y : Int) :
    Set.InjOn (wrappedPlace x y) (setBits rows) := by
  rintro ⟨column, row⟩ hbit ⟨column', row'⟩ hbit' hsame
  obtain ⟨hcolumn, hrow, -⟩ := mem_setBits.mp hbit
  obtain ⟨hcolumn', hrow', -⟩ := mem_setBits.mp hbit'
  have hlands := (lands_iff_wrappedPlace _).mpr hsame
  have hlands' : Lands true x y column' row' _ _ := (lands_iff_wrappedPlace _).mpr rfl
  exact Prod.ext_iff.mpr (hlands.unique hlands' hcolumn hcolumn' (hrow.trans_le hrows)
    (hrow'.trans_le hrows))

/-- If a mask wraps, each set bit lights a pixel of its own and no other pixel is lit. -/
theorem bijOn_wrappedPlace (hrows : rows.length ≤ screenHeight) (x y : Int) :
    Set.BijOn (wrappedPlace x y) (setBits rows) (mask rows x y true).litPixels := by
  rw [litPixels_mask hrows, Finset.coe_image]
  exact (injOn_wrappedPlace hrows x y).bijOn_image

/-- A place in the plane lies on the screen. -/
def OnScreen (x y : Int) : Prop := (0 ≤ x ∧ x < screenWidth) ∧ 0 ≤ y ∧ y < screenHeight

instance (x y : Int) : Decidable (OnScreen x y) := inferInstanceAs (Decidable (_ ∧ _))

/-- Keep the bits of a row in some columns and clear the others. -/
def keepColumns (byte : UInt8) (keep : Nat → Bool) : UInt8 :=
  UInt8.ofNat (Nat.ofBits fun k : Fin spriteWidth =>
    byte.toNat.testBit k && keep (spriteWidth - 1 - k))

theorem testBit_keepColumns (byte : UInt8) (keep : Nat → Bool) (hcolumn : column < spriteWidth) :
    (keepColumns byte keep).toNat.testBit (spriteWidth - 1 - column) =
      (byte.toNat.testBit (spriteWidth - 1 - column) && keep column) := by
  have hplace : spriteWidth - 1 - column < spriteWidth := by omega
  have hback : spriteWidth - 1 - (spriteWidth - 1 - column) = column := by omega
  rw [keepColumns, UInt8.toNat_ofNat', Nat.mod_eq_of_lt (Nat.ofBits_lt_two_pow _),
    Nat.testBit_ofBits_lt _ _ hplace, hback]

/-- A sprite with its corner at `(x, y)` without the bits that fall off the screen. -/
def clipped (rows : List UInt8) (x y : Int) : List UInt8 :=
  rows.mapIdx fun row byte =>
    keepColumns byte fun column => decide (OnScreen (x + column) (y + row))

@[simp] theorem length_clipped (rows : List UInt8) (x y : Int) :
    (clipped rows x y).length = rows.length := List.length_mapIdx

/-- Exactly the bits that fall on the screen are left. -/
theorem bit_clipped (rows : List UInt8) (x y c r : Int) :
    bit (clipped rows x y) c r = (bit rows c r && decide (OnScreen (x + c) (y + r))) := by
  rw [Bool.eq_iff_iff, Bool.and_eq_true, decide_eq_true_eq, bit_eq_true_iff, bit_eq_true_iff,
    length_clipped]
  have hrow {column row : Nat} (hcolumn : column < spriteWidth) (hrow : row < rows.length) :
      ((clipped rows x y)[row]?.getD 0).toNat.testBit (spriteWidth - 1 - column) = true ↔
        (rows[row]?.getD 0).toNat.testBit (spriteWidth - 1 - column) = true ∧
          OnScreen (x + column) (y + row) := by
    rw [clipped, List.getElem?_mapIdx, List.getElem?_eq_getElem hrow, Option.map_some,
      Option.getD_some, Option.getD_some, testBit_keepColumns _ _ hcolumn, Bool.and_eq_true,
      decide_eq_true_eq]
  constructor
  · rintro ⟨column, row, rfl, rfl, hwidth, hheight, hset⟩
    obtain ⟨hbit, hon⟩ := (hrow hwidth hheight).mp hset
    exact ⟨⟨column, row, rfl, rfl, hwidth, hheight, hbit⟩, hon⟩
  · rintro ⟨⟨column, row, rfl, rfl, hwidth, hheight, hbit⟩, hon⟩
    exact ⟨column, row, rfl, rfl, hwidth, hheight, (hrow hwidth hheight).mpr ⟨hbit, hon⟩⟩

/-- A mask that does not wrap is that of the sprite without the bits that fall off the screen. It
does not matter whether the latter wraps. -/
theorem mask_eq_mask_clipped (hrows : rows.length ≤ screenHeight) (x y : Int) (wraps : Bool) :
    mask rows x y false = mask (clipped rows x y) x y wraps := by
  apply Screen.ext
  intro i j
  have hon : OnScreen i j := by
    unfold OnScreen
    omega
  have hunwrapped : bit (clipped rows x y) (i - x) (j - y) = bit rows (i - x) (j - y) := by
    rw [bit_clipped, add_sub_cancel, add_sub_cancel, decide_eq_true hon, Bool.and_true]
  simp only [mask, Screen.pixel_ofFn, Bool.false_eq_true, ite_false]
  cases wraps with
  | false => exact hunwrapped.symm
  | true =>
    rw [if_pos rfl, Bool.eq_iff_iff]
    constructor
    · intro hset
      obtain ⟨hcolumn, hwidth, hrow, hheight⟩ := bounds_of_bit hset
      have hnarrow : (i : Int) - x < screenWidth := Int.lt_trans hwidth (by decide)
      have hlow : (j : Int) - y < screenHeight := by omega
      rwa [Int.emod_eq_of_lt hcolumn hnarrow, Int.emod_eq_of_lt hrow hlow, hunwrapped]
    · intro hset
      have hinside : OnScreen (x + (i - x) % screenWidth) (y + (j - y) % screenHeight) := by
        rw [bit_clipped, Bool.and_eq_true, decide_eq_true_eq] at hset
        exact hset.2
      rwa [emod_sub_of_inside hon.1 hinside.1, emod_sub_of_inside hon.2 hinside.2, hunwrapped]
        at hset

theorem inCoordinateRange_of_natAbs_le {v : Int} (h : v.natAbs ≤ 2 ^ 30) :
    inCoordinateRange v = true := by
  simp only [inCoordinateRange, decide_eq_true_eq]
  omega

/-- A host's sprite that is not too tall has a mask for every corner in the range of coordinates. -/
theorem mask?_eq_ok (hrows : rows.length ≤ maxSpriteHeight + 1) (hx : inCoordinateRange x = true)
    (hy : inCoordinateRange y = true) (wraps : Bool) :
    mask? rows x y wraps = .ok (mask rows x y wraps) := by
  rw [mask?, if_neg (Nat.not_lt.mpr hrows), hx, hy]
  rfl

/-- A host's sprite of at most sixteen rows has a mask for every corner whose coordinates are at
most `2 ^ 30` away from zero, and the mask lights exactly the pixels on which set bits fall. If it
wraps, each set bit has a pixel of its own, so as many pixels are lit as bits are set. If it does
not wrap, it is the mask of the same sprite without exactly the bits that fall off the screen. -/
theorem mask_lights_set_bits (hrows : rows.length ≤ 16) (hx : x.natAbs ≤ 2 ^ 30)
    (hy : y.natAbs ≤ 2 ^ 30) (wraps : Bool) :
    ∃ lit, mask? rows x y wraps = .ok lit ∧
      (∀ i j, lit.pixel i j = true ↔ ∃ c r : Nat, c < 8 ∧ r < rows.length ∧
        (rows[r]?.getD 0).toNat.testBit (7 - c) = true ∧ Lands wraps x y c r i j) ∧
      (wraps = true → Set.BijOn (wrappedPlace x y) (setBits rows) lit.litPixels ∧
        lit.litPixels.card = (rows.map bitCount).sum) ∧
      (wraps = false → (∀ wraps', mask? (clipped rows x y) x y wraps' = .ok lit) ∧
        (clipped rows x y).length = rows.length ∧
        ∀ c r, bit (clipped rows x y) c r =
          (bit rows c r && decide (OnScreen (x + c) (y + r)))) := by
  have hx' := inCoordinateRange_of_natAbs_le hx
  have hy' := inCoordinateRange_of_natAbs_le hy
  have hfits : rows.length ≤ screenHeight := hrows.trans (by decide)
  refine ⟨mask rows x y wraps, mask?_eq_ok hrows hx' hy' wraps, fun i j => pixel_mask_iff hfits,
    ?_, ?_⟩
  · rintro rfl
    have hbij := bijOn_wrappedPlace hfits x y
    exact ⟨hbij, by rw [← hbij.finsetCard_eq, card_setBits]⟩
  · rintro rfl
    refine ⟨fun wraps' => ?_, length_clipped rows x y, bit_clipped rows x y⟩
    have hclipped : (clipped rows x y).length ≤ maxSpriteHeight + 1 := by
      rw [length_clipped]
      exact hrows
    rw [mask?_eq_ok hclipped hx' hy', mask_eq_mask_clipped hfits x y wraps']

/-- A sprite whose corner lies above and to the left of the screen lights a pixel for each of its
ten bits if it wraps, and otherwise what the one bit on the screen lights. -/
theorem mask_lights_across_corner :
    ([0xFF, 0x81] : List UInt8).length ≤ 16 ∧ (-4 : Int).natAbs ≤ 2 ^ 30 ∧
      (-1 : Int).natAbs ≤ 2 ^ 30 ∧
      (∃ lit, mask? [0xFF, 0x81] (-4) (-1) true = .ok lit ∧ lit.litPixels.card = 10) ∧
      clipped [0xFF, 0x81] (-4) (-1) = [0x00, 0x01] ∧
      mask? [0xFF, 0x81] (-4) (-1) false = mask? [0x00, 0x01] (-4) (-1) true := by
  have hrows : ([0xFF, 0x81] : List UInt8).length ≤ 16 := by decide
  have hx : (-4 : Int).natAbs ≤ 2 ^ 30 := by decide
  have hy : (-1 : Int).natAbs ≤ 2 ^ 30 := by decide
  have hclipped : clipped [0xFF, 0x81] (-4) (-1) = [0x00, 0x01] := by decide
  obtain ⟨lit, hlit, -, hwraps, -⟩ := mask_lights_set_bits hrows hx hy true
  obtain ⟨-, hcard⟩ := hwraps rfl
  obtain ⟨cut, hcut, -, -, hclips⟩ := mask_lights_set_bits hrows hx hy false
  obtain ⟨hsame, -⟩ := hclips rfl
  rw [hclipped] at hsame
  refine ⟨hrows, hx, hy, ⟨lit, hlit, ?_⟩, hclipped, ?_⟩
  · rw [hcard]
    decide
  · rw [hcut, hsame true]

end Sprite

end Chip8
