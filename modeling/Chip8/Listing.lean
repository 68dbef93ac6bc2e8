import Chip8.Disassembler

/-!
Listings: a line for each whole word of a file, with its address, its assembly
text and the word itself.
-/

namespace Chip8.Listing

/-- The whole words of a sequence of bytes; an odd last byte is dropped. -/
def words : List UInt8 → List UInt16
  | high :: low :: rest => Word.ofBytes high low :: words rest
  | _ => []

def wordText (painter : Text.Painter) (coloured : Bool) (word : UInt16) : String :=
  if coloured then painter.tint .grey (Text.hex 4 word.toNat)
  else Text.hex 4 word.toNat

def disassembler (coloured : Bool) : Disassembler :=
  if coloured then .coloured else .plain

def line (painter : Text.Painter) (coloured : Bool) (address : Nat) (word : UInt16) : String :=
  Text.hex 3 address ++ ": " ++ (disassembler coloured).text painter word ++ " " ++
    wordText painter coloured word ++ "\n"

def linesFrom (painter : Text.Painter) (coloured : Bool) (address : Nat) :
    List UInt16 → List String
  | [] => []
  | word :: rest =>
      line painter coloured address word :: linesFrom painter coloured (address + 2) rest

/-- The listing of what a file holds from an offset on, as if its first byte were
loaded at an address. -/
def lines (painter : Text.Painter) (coloured : Bool) (address offset : Nat)
    (contents : List UInt8) : List String :=
  linesFrom painter coloured (address + offset) (words (contents.drop offset))

end Chip8.Listing
