import Chip8.Bits

/-!
A monochrome screen of sixty-four columns and thirty-two rows. A row is a vector
of sixty-four bits with column zero in the most significant place. Points off
the screen are dark, and toggling them has no effect.

`get` is the view by which a screen is known.
-/

namespace Chip8

structure Point where
  x : Nat
  y : Nat
  deriving DecidableEq, Repr

structure Screen where
  rows : Vector (BitVec 64) 32
  deriving DecidableEq

namespace Screen

def width : Nat := 64

def height : Nat := 32

def blank : Screen := { rows := Vector.replicate 32 0#64 }

def row (screen : Screen) (y : Nat) : BitVec 64 := screen.rows[y]?.getD 0#64

def get (screen : Screen) (x y : Nat) : Bool := (screen.row y).getMsbD x

def column (x : Nat) : BitVec 64 :=
  if x < width then BitVec.twoPow 64 (63 - x) else 0#64

def toggle (screen : Screen) (point : Point) : Screen :=
  { rows := screen.rows.setIfInBounds point.y
      (screen.row point.y ^^^ column point.x) }

def isBlank (screen : Screen) : Bool :=
  screen.rows.toList.all (fun row => row == 0#64)

def rowLit (row : BitVec 64) : Nat :=
  (List.range width).countP (fun x => row.getMsbD x)

def lit (screen : Screen) : Nat :=
  (screen.rows.toList.map rowLit).foldr (· + ·) 0

def ofPixels (pixel : Nat → Nat → Bool) : Screen :=
  { rows := Vector.ofFn fun y =>
      BitVec.ofNat 64 (Bits.value ((List.range width).map fun x => pixel x y.val)) }

theorem get_eq_false_of_width_le (screen : Screen) {x : Nat} (y : Nat)
    (outside : width ≤ x) : screen.get x y = false :=
  BitVec.getMsbD_of_ge _ _ outside

theorem get_eq_false_of_height_le (screen : Screen) (x : Nat) {y : Nat}
    (outside : height ≤ y) : screen.get x y = false := by
  have missing : screen.rows[y]? = none := Vector.getElem?_eq_none outside
  simp [get, row, missing]

theorem get_blank (x y : Nat) : blank.get x y = false := by
  by_cases inside : y < 32 <;> simp [get, row, blank, inside]

theorem ext_get {left right : Screen}
    (same : ∀ x y, x < width → y < height → left.get x y = right.get x y) :
    left = right := by
  rcases left with ⟨left⟩
  rcases right with ⟨right⟩
  refine congrArg Screen.mk (Vector.ext (fun y inside => ?_))
  refine BitVec.eq_of_getMsbD_eq (fun x within => ?_)
  have pixel := same x y within inside
  simpa only [get, row, Vector.getElem?_eq_getElem inside, Option.getD_some] using pixel

theorem getMsbD_column (x other : Nat) :
    (column x).getMsbD other = decide (x < width ∧ other = x) := by
  unfold column
  by_cases inside : x < width
  · have place : 64 - (63 - x) - 1 = x := by
      simp only [width] at inside
      omega
    have bound : 63 - x < 64 := by omega
    simp [inside, BitVec.getMsbD_twoPow, place, bound]
  · simp [inside]

theorem get_toggle (screen : Screen) (point : Point) (x y : Nat) :
    (screen.toggle point).get x y =
      (screen.get x y ^^ decide (point.x = x ∧ point.y = y ∧ x < width ∧ y < height)) := by
  by_cases sameRow : point.y = y
  · subst sameRow
    by_cases inside : point.y < 32
    · have stored : (screen.toggle point).row point.y =
          screen.row point.y ^^^ column point.x := by
        simp [toggle, row, inside]
      simp only [get, stored, BitVec.getMsbD_xor, getMsbD_column]
      by_cases sameColumn : point.x = x
      · subst sameColumn
        simp [height, inside]
      · simp [sameColumn, Ne.symm sameColumn]
    · have outside : height ≤ point.y := Nat.le_of_not_lt inside
      rw [get_eq_false_of_height_le _ _ outside, get_eq_false_of_height_le _ _ outside]
      simp [Nat.not_lt_of_le outside]
  · have kept : (screen.toggle point).row y = screen.row y := by
      simp [toggle, row, sameRow]
    simp [get, kept, sameRow]

theorem row_ofPixels (pixel : Nat → Nat → Bool) {y : Nat} (inRow : y < height) :
    (ofPixels pixel).row y =
      BitVec.ofNat 64 (Bits.value ((List.range width).map fun x => pixel x y)) := by
  have within : y < 32 := inRow
  simp [row, ofPixels, within]

theorem get_ofPixels (pixel : Nat → Nat → Bool) {x y : Nat}
    (inColumn : x < width) (inRow : y < height) :
    (ofPixels pixel).get x y = pixel x y := by
  have bound : x < 64 := inColumn
  have small : 63 - x < 64 := by omega
  have position : 64 - 1 - (63 - x) = x := by omega
  rw [get, row_ofPixels pixel inRow, BitVec.getMsbD_eq_getLsbD,
    show 64 - 1 - x = 63 - x from rfl, BitVec.getLsbD_ofNat, Bits.testBit_value_map_range,
    width, position]
  simp [bound, small]

end Screen

end Chip8
