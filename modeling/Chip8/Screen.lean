import Chip8.Layout

/-!
# The screen

A rectangle of lit and dark pixels. A screen is known by its view `pixel`; pictures are built
from a function of the coordinates and combined pixel by pixel.
-/

namespace Chip8

/-- Which pixels are lit, row by row from the top. -/
structure Screen where
  /-- The rows, each from left to right. -/
  rows : Vector (Vector Bool screenWidth) screenHeight
  deriving DecidableEq, Repr

namespace Screen

/-- Whether the pixel in a column and a row is lit. -/
def pixel (s : Screen) (x : Fin screenWidth) (y : Fin screenHeight) : Bool := s.rows[y][x]

/-- Screens that show the same pixels are equal. -/
@[ext] theorem ext {s t : Screen} (h : ∀ x y, s.pixel x y = t.pixel x y) : s = t := by
  cases s
  cases t
  congr 1
  exact Vector.ext fun y hy => Vector.ext fun x hx => h ⟨x, hx⟩ ⟨y, hy⟩

/-- The screen on which a pixel is lit where the function says so. -/
def ofFn (f : Fin screenWidth → Fin screenHeight → Bool) : Screen :=
  ⟨Vector.ofFn fun y => Vector.ofFn fun x => f x y⟩

@[simp] theorem pixel_ofFn (f : Fin screenWidth → Fin screenHeight → Bool) (x : Fin screenWidth)
    (y : Fin screenHeight) : (ofFn f).pixel x y = f x y := by
  simp [ofFn, pixel]

/-- The screen with every pixel dark. -/
def blank : Screen := ofFn fun _ _ => false

@[simp] theorem pixel_blank (x : Fin screenWidth) (y : Fin screenHeight) :
    blank.pixel x y = false := by
  simp [blank]

/-- Toggle on one screen the pixels that are lit on the other. -/
def xor (s t : Screen) : Screen := ofFn fun x y => s.pixel x y ^^ t.pixel x y

@[simp] theorem pixel_xor (s t : Screen) (x : Fin screenWidth) (y : Fin screenHeight) :
    (s.xor t).pixel x y = (s.pixel x y ^^ t.pixel x y) := by
  simp [xor]

/-- Keep on one screen the pixels that are lit on the other as well. -/
def inter (s t : Screen) : Screen := ofFn fun x y => s.pixel x y && t.pixel x y

@[simp] theorem pixel_inter (s t : Screen) (x : Fin screenWidth) (y : Fin screenHeight) :
    (s.inter t).pixel x y = (s.pixel x y && t.pixel x y) := by
  simp [inter]

/-- Whether any pixel is lit. -/
def anyLit (s : Screen) : Bool := s.rows.any fun row => row.any id

/-- A screen has a lit pixel exactly when one of its pixels is lit. -/
theorem anyLit_iff (s : Screen) : s.anyLit = true ↔ ∃ x y, s.pixel x y = true := by
  simp only [anyLit, Vector.any_eq_true, id_eq, pixel]
  constructor
  · rintro ⟨y, hy, x, hx, h⟩
    exact ⟨⟨x, hx⟩, ⟨y, hy⟩, h⟩
  · rintro ⟨x, y, h⟩
    exact ⟨y.val, y.isLt, x.val, x.isLt, h⟩

/-- Whether some pixel is lit on both screens. -/
def meets (s t : Screen) : Bool := (s.inter t).anyLit

/-- Screens meet exactly when they share a lit pixel. -/
theorem meets_iff (s t : Screen) :
    s.meets t = true ↔ ∃ x y, s.pixel x y = true ∧ t.pixel x y = true := by
  simp [meets, anyLit_iff]

end Screen

end Chip8
