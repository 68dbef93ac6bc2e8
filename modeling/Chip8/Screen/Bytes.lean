import Chip8.Screen

/-!
Screens as bytes: row by row, eight bytes a row, the leftmost pixel of each
eight in the high bit.
-/

namespace Chip8.Screen

/-- The eight pixels that one byte of the packed form holds. -/
def packed (screen : Screen) (index : Nat) : UInt8 :=
  UInt8.ofNat (Bits.value ((List.range 8).map fun position =>
    screen.get (8 * (index % 8) + position) (index / 8)))

def toBytes (screen : Screen) : List UInt8 :=
  (List.range 256).map screen.packed

/-- Missing bytes are dark, and bytes after the last row are not read. -/
def ofBytes (bytes : List UInt8) : Screen :=
  ofPixels fun x y => Bits.ofByte (bytes.getD (8 * y + x / 8) 0) (x % 8)

end Chip8.Screen
