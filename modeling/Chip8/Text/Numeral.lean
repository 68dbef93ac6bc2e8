/-!
Numerals as text. Hexadecimal and binary numerals have the fewest digits that show
the value and at least a given number of them; decimal numerals are filled on the
left to a given width. A numeral that is wider than asked is never cut, so the
text always determines the value.
-/

namespace Chip8.Text

/-- Lower-case hexadecimal digits, filled with zeros to `width`. -/
def hex (width value : Nat) : String :=
  String.ofList ((Nat.toDigits 16 value).leftpad width '0')

/-- Capital hexadecimal digits, as few as show the value. -/
def capitalHex (value : Nat) : String :=
  String.ofList ((Nat.toDigits 16 value).map Char.toUpper)

/-- Binary digits, filled with zeros to `width`. -/
def binary (width value : Nat) : String :=
  String.ofList ((Nat.toDigits 2 value).leftpad width '0')

/-- Decimal digits, filled on the left to `width`. -/
def decimal (fill : Char) (width value : Nat) : String :=
  String.ofList ((Nat.toDigits 10 value).leftpad width fill)

/-- Blanks are added on the right up to `width` characters. -/
def padEnd (width : Nat) (text : String) : String :=
  text ++ String.ofList (List.replicate (width - text.length) ' ')

def hexBytes (bytes : List UInt8) : String :=
  String.join (bytes.map (fun byte => hex 2 byte.toNat))

end Chip8.Text
