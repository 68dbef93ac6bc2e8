import Chip8.Screen
import Chip8.Text.Numeral

/-!
Two pictures of a screen as text. The block picture has a numbered line for each
row and a character for each pixel. The dot picture has a character for each
two by four pixels, with one column and one line of characters beyond the last
pixels.
-/

namespace Chip8.Screen

def exchange (old new : Char) (text : String) : String :=
  text.map fun c => if c = old then new else c

/-- A row as a binary numeral, with blanks and blocks for its digits. -/
def blocks (row : BitVec 64) : String :=
  exchange '1' '█' (exchange '0' ' ' (Text.binary width row.toNat))

def blockLine (screen : Screen) (y : Nat) : String :=
  Text.decimal '0' 2 y ++ "|" ++ blocks (screen.row y) ++ "|\n"

def blockPicture (screen : Screen) : String :=
  String.join ((List.range height).map screen.blockLine)

def dotWeight : Nat → Nat → Nat
  | 0, 0 => 0x01
  | 0, 1 => 0x02
  | 0, 2 => 0x04
  | 0, 3 => 0x40
  | 1, 0 => 0x08
  | 1, 1 => 0x10
  | 1, 2 => 0x20
  | 1, 3 => 0x80
  | _, _ => 0

def dots : List Point :=
  (List.range 2).flatMap fun x => (List.range 4).map fun y => ⟨x, y⟩

def dotSum (screen : Screen) (column line : Nat) : Nat :=
  (dots.map fun dot =>
    if screen.get (2 * column + dot.x) (4 * line + dot.y) then dotWeight dot.x dot.y
    else 0).foldr (· + ·) 0

/-- A character without lit dots is a space. -/
def dotCharacter (sum : Nat) : Char :=
  if sum = 0 then ' ' else Char.ofNat (0x2800 + sum)

def dotLine (screen : Screen) (line : Nat) : String :=
  String.ofList ((List.range 33).map fun column =>
    dotCharacter (screen.dotSum column line))

def dotPicture (screen : Screen) : String :=
  String.intercalate "\n" ((List.range 9).map screen.dotLine)

end Chip8.Screen
