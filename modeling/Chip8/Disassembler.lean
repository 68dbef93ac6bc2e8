import Chip8.Instruction.Assembly
import Chip8.Text.Style

/-!
A disassembler writes one word as assembly text in one of two styles: one for
words that carry an instruction, one for words that carry none.
-/

namespace Chip8

structure Disassembler where
  valid : Text.Style
  invalid : Text.Style
  deriving DecidableEq, Repr

namespace Disassembler

def plain : Disassembler :=
  { valid := .plain, invalid := .plain }

def coloured : Disassembler :=
  { valid := { colour := some .green, bold := false }
    invalid := { colour := some .red, bold := true } }

def invalidText (word : UInt16) : String :=
  Text.padEnd 7 "inval" ++ Text.hex 4 word.toNat

def styled (disassembler : Disassembler) (word : UInt16) : Text.Styled :=
  match Instruction.ofWord? word with
  | some instruction => { style := disassembler.valid, text := instruction.text }
  | none => { style := disassembler.invalid, text := invalidText word }

def text (disassembler : Disassembler) (painter : Text.Painter) (word : UInt16) : String :=
  (disassembler.styled word).painted painter

end Disassembler

end Chip8
