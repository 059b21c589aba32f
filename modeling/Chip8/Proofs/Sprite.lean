import Chip8.Sprite

/-!
# Where the bits of a sprite fall

A mask lights exactly the pixels on which the set bits of its sprite fall. Whether the bits that fall
past the right or the bottom edge come back on the opposite one matters only if one of them is set.
-/

namespace Chip8.Sprite

variable {rows : List UInt8}

/-- A bit that is set lies inside the sprite. -/
theorem bounds_of_bit {column row : Int} (h : bit rows column row = true) :
    0 ≤ column ∧ column < spriteWidth ∧ 0 ≤ row ∧ row < rows.length := by
  simp only [bit, Bool.and_eq_true, decide_eq_true_eq] at h
  obtain ⟨⟨hcolumn, hrow⟩, -⟩ := h
  exact ⟨hcolumn.1, hcolumn.2, hrow.1, hrow.2⟩

/-- A bit is set exactly if it is set in one of the rows. -/
theorem bit_eq_true_iff {column row : Int} :
    bit rows column row = true ↔ ∃ c r : Nat, column = c ∧ row = r ∧ c < spriteWidth ∧
      r < rows.length ∧ (rows[r]?.getD 0).toNat.testBit (spriteWidth - 1 - c) = true := by
  constructor
  · intro h
    obtain ⟨hcolumn, hwidth, hrow, hheight⟩ := bounds_of_bit h
    simp only [bit, Bool.and_eq_true] at h
    exact ⟨column.toNat, row.toNat, by omega, by omega, by omega, by omega, h.2⟩
  · rintro ⟨c, r, rfl, rfl, hc, hr, hset⟩
    simp only [bit, Bool.and_eq_true, decide_eq_true_eq]
    exact ⟨⟨⟨by omega, by omega⟩, by omega, by omega⟩, hset⟩

/-- A bit of a sprite with its corner at `(x, y)` falls on a pixel of the screen. -/
def Lands (wraps : Bool) (x y : Int) (column row : Nat) (i : Fin screenWidth)
    (j : Fin screenHeight) : Prop :=
  if wraps then (x + column) % screenWidth = i ∧ (y + row) % screenHeight = j
  else x + column = i ∧ y + row = j

/-- No two bits of a sprite that is no taller than the screen fall on the same pixel. -/
theorem Lands.unique {wraps : Bool} {x y : Int} {column row column' row' : Nat}
    {i : Fin screenWidth} {j : Fin screenHeight} (h : Lands wraps x y column row i j)
    (h' : Lands wraps x y column' row' i j) (hcolumn : column < spriteWidth)
    (hcolumn' : column' < spriteWidth) (hrow : row < screenHeight) (hrow' : row' < screenHeight) :
    column = column' ∧ row = row' := by
  simp only [Lands, screenWidth, screenHeight] at h h'
  simp only [spriteWidth, screenHeight] at hcolumn hcolumn' hrow hrow'
  cases wraps with
  | true =>
    simp only [ite_true] at h h'
    omega
  | false =>
    simp only [Bool.false_eq_true, ite_false] at h h'
    omega

/-- One place on a line that wraps is at an offset from another exactly if the offset leads there. -/
theorem emod_sub_eq_iff {start place offset size : Int} (hplace : 0 ≤ place ∧ place < size)
    (hoffset : 0 ≤ offset ∧ offset < size) :
    (place - start) % size = offset ↔ (start + offset) % size = place := by
  constructor
  · rintro rfl
    rw [Int.add_emod_emod, Int.add_comm, Int.sub_add_cancel]
    exact Int.emod_eq_of_lt hplace.1 hplace.2
  · rintro rfl
    rw [Int.emod_sub_emod, Int.add_comm, Int.add_sub_cancel]
    exact Int.emod_eq_of_lt hoffset.1 hoffset.2

/-- A mask lights exactly the pixels on which a set bit of its sprite falls. -/
theorem pixel_mask_iff (hrows : rows.length ≤ screenHeight) {x y : Int} {wraps : Bool}
    {i : Fin screenWidth} {j : Fin screenHeight} :
    (mask rows x y wraps).pixel i j = true ↔
      ∃ c r : Nat, c < spriteWidth ∧ r < rows.length ∧
        (rows[r]?.getD 0).toNat.testBit (spriteWidth - 1 - c) = true ∧ Lands wraps x y c r i j := by
  simp only [mask, Screen.pixel_ofFn, Lands]
  cases wraps with
  | true =>
    simp only [ite_true, bit_eq_true_iff]
    refine exists_congr fun c => exists_congr fun r => ?_
    have hi : 0 ≤ (i : Int) ∧ (i : Int) < screenWidth := by omega
    have hj : 0 ≤ (j : Int) ∧ (j : Int) < screenHeight := by omega
    constructor
    · rintro ⟨hcolumn, hrow, hc, hr, hset⟩
      refine ⟨hc, hr, hset, (emod_sub_eq_iff hi ⟨by omega, ?_⟩).mp hcolumn,
        (emod_sub_eq_iff hj ⟨by omega, by omega⟩).mp hrow⟩
      exact Int.ofNat_lt.mpr (Nat.lt_trans hc (by decide))
    · rintro ⟨hc, hr, hset, hcolumn, hrow⟩
      refine ⟨(emod_sub_eq_iff hi ⟨by omega, ?_⟩).mpr hcolumn,
        (emod_sub_eq_iff hj ⟨by omega, by omega⟩).mpr hrow, hc, hr, hset⟩
      exact Int.ofNat_lt.mpr (Nat.lt_trans hc (by decide))
  | false =>
    simp only [Bool.false_eq_true, ite_false, bit_eq_true_iff]
    refine exists_congr fun c => exists_congr fun r => ?_
    constructor
    · rintro ⟨hcolumn, hrow, hc, hr, hset⟩
      exact ⟨hc, hr, hset, by omega, by omega⟩
    · rintro ⟨hc, hr, hset, hcolumn, hrow⟩
      exact ⟨by omega, by omega, hc, hr, hset⟩

/-- Some set bit of a sprite with its corner at `(x, y)` falls past the right or the bottom edge. -/
def Overhangs (rows : List UInt8) (x y : Int) : Prop :=
  ∃ column row : Int, bit rows column row = true ∧
    (screenWidth ≤ x + column ∨ screenHeight ≤ y + row)

/-- An offset along an edge that leads to a place between its ends has not been wrapped. -/
theorem emod_sub_of_inside {start place size : Int} (hplace : 0 ≤ place ∧ place < size)
    (hinside : 0 ≤ start + (place - start) % size ∧ start + (place - start) % size < size) :
    (place - start) % size = place - start := by
  have hpos : 0 < size := Int.lt_of_le_of_lt hplace.1 hplace.2
  have hoffset : 0 ≤ (place - start) % size ∧ (place - start) % size < size :=
    ⟨Int.emod_nonneg _ (Int.ne_of_gt hpos), Int.emod_lt_of_pos _ hpos⟩
  have hback := (emod_sub_eq_iff hplace hoffset).mp rfl
  rw [Int.emod_eq_of_lt hinside.1 hinside.2] at hback
  omega

theorem mask_wrapped_of_not_overhangs {x y : Int} (hx : 0 ≤ x ∧ x < screenWidth)
    (hy : 0 ≤ y ∧ y < screenHeight) (h : ¬ Overhangs rows x y) :
    mask rows x y true = mask rows x y false := by
  apply Screen.ext
  intro i j
  have hi : 0 ≤ (i : Int) ∧ (i : Int) < screenWidth := by omega
  have hj : 0 ≤ (j : Int) ∧ (j : Int) < screenHeight := by omega
  simp only [mask, Screen.pixel_ofFn, ite_true, Bool.false_eq_true, ite_false]
  rw [Bool.eq_iff_iff]
  constructor
  · intro hset
    obtain ⟨hcolumn, hrow⟩ : x + (i - x) % screenWidth < screenWidth ∧
        y + (j - y) % screenHeight < screenHeight := by
      refine Decidable.byContradiction fun hout => h ⟨_, _, hset, ?_⟩
      omega
    obtain ⟨hcolumn', -, hrow', -⟩ := bounds_of_bit hset
    rwa [emod_sub_of_inside hi ⟨Int.add_nonneg hx.1 hcolumn', hcolumn⟩,
      emod_sub_of_inside hj ⟨Int.add_nonneg hy.1 hrow', hrow⟩] at hset
  · intro hset
    obtain ⟨hcolumn, -, hrow, -⟩ := bounds_of_bit hset
    rwa [Int.emod_eq_of_lt hcolumn (by omega), Int.emod_eq_of_lt hrow (by omega)]

/-- Whether a mask wraps does not matter to a sprite that stays on the screen. -/
theorem mask_eq_of_not_overhangs {x y : Int} (hx : 0 ≤ x ∧ x < screenWidth)
    (hy : 0 ≤ y ∧ y < screenHeight) (h : ¬ Overhangs rows x y) (wraps wraps' : Bool) :
    mask rows x y wraps = mask rows x y wraps' := by
  have hwrapped := mask_wrapped_of_not_overhangs hx hy h
  cases wraps with
  | false =>
    cases wraps' with
    | false => rfl
    | true => exact hwrapped.symm
  | true =>
    cases wraps' with
    | false => exact hwrapped
    | true => rfl

end Chip8.Sprite
