import Chip8.Screen

/-!
Flipping points one at a time, each with an answer. A mask picks a column out of a packed row, and
the mask of the leftmost column is the highest bit.
-/

namespace Chip8.Screen

/-- The highest bit, moved to the place of a column. -/
def mask (x : Nat) : BitVec 64 := 0x8000000000000000#64 >>> x

/-- Toggle a point and tell whether it was lit. Off the screen nothing is lit, and nothing
changes. -/
def flip (screen : Screen) (point : Point) : Screen × Bool :=
  if point.x < width ∧ point.y < height then
    ({ rows := screen.rows.setIfInBounds point.y (screen.row point.y ^^^ mask point.x) },
      screen.row point.y &&& mask point.x != 0#64)
  else (screen, false)

/-- Flip points one after another. The answers are in the order of the points. -/
def flipEach (screen : Screen) : List Point → Screen × List Bool
  | [] => (screen, [])
  | point :: points =>
      let (flipped, lit) := screen.flip point
      let (after, answers) := flipped.flipEach points
      (after, lit :: answers)

end Chip8.Screen
