import Chip8.Screen

/-!
Sprites: rows of eight pixels, drawn by toggling the point on which each lit
pixel lands. A pixel past the right or bottom edge lands nowhere, or, when
drawing wraps, on the opposite side.
-/

namespace Chip8.Screen

/-- The lit pixels of a sprite, row by row and from left to right, relative to
its corner. -/
def litPixels (sprite : List UInt8) : List Point :=
  sprite.zipIdx.flatMap fun (bits, line) =>
    ((List.range 8).filter (Bits.ofByte bits)).map fun position => ⟨position, line⟩

/-- Where a pixel lands when the corner of its sprite is at `corner`. -/
def land (wrap : Bool) (corner pixel : Point) : Option Point :=
  if wrap then
    some ⟨(corner.x + pixel.x) % width, (corner.y + pixel.y) % height⟩
  else if corner.x + pixel.x < width ∧ corner.y + pixel.y < height then
    some ⟨corner.x + pixel.x, corner.y + pixel.y⟩
  else none

def landed (wrap : Bool) (corner : Point) (sprite : List UInt8) : List Point :=
  (litPixels sprite).filterMap (land wrap corner)

/-- Toggle points one after another, and tell whether any of them was lit when
its turn came. -/
def toggleEach (screen : Screen) : List Point → Screen × Bool
  | [] => (screen, false)
  | point :: points =>
      let (after, collided) := (screen.toggle point).toggleEach points
      (after, screen.get point.x point.y || collided)

def draw (screen : Screen) (wrap : Bool) (corner : Point) (sprite : List UInt8) :
    Screen × Bool :=
  screen.toggleEach (landed wrap corner sprite)

end Chip8.Screen
