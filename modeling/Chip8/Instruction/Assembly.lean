import Chip8.Instruction
import Chip8.Text.Numeral

/-!
Assembly text: a mnemonic padded to a column of seven characters, then the
operands with the destination first. Registers are written in capitals, bytes
with a number sign and two digits, addresses with at least three digits.
-/

namespace Chip8

def Opcode.mnemonic : Opcode → String
  | .bare .clearScreen => "cls"
  | .bare .ret => "ret"
  | .address .jump => "jp"
  | .address .call => "call"
  | .address .loadIndex => "ld"
  | .address .jumpIndexed => "jp"
  | .byte .skipEqual => "se"
  | .byte .skipUnequal => "sne"
  | .byte .load => "ld"
  | .byte .add => "add"
  | .byte .random => "rnd"
  | .pair .skipEqual => "se"
  | .pair .skipUnequal => "sne"
  | .pair .load => "ld"
  | .pair .or => "or"
  | .pair .and => "and"
  | .pair .xor => "xor"
  | .pair .add => "add"
  | .pair .subtract => "sub"
  | .pair .shiftRight => "shr"
  | .pair .subtractFrom => "subn"
  | .pair .shiftLeft => "shl"
  | .sprite => "drw"
  | .register .skipHeld => "skp"
  | .register .skipReleased => "sknp"
  | .register .readDelay => "ld"
  | .register .awaitKey => "ld"
  | .register .setDelay => "ld"
  | .register .setSound => "ld"
  | .register .addIndex => "add"
  | .register .glyph => "ld"
  | .register .decimal => "ld"
  | .register .store => "ld"
  | .register .load => "ld"

namespace Instruction

def registerText (register : UInt64) : String :=
  "v" ++ Text.capitalHex register.toNat

def byteText (value : UInt8) : String :=
  "#" ++ Text.hex 2 value.toNat

def addressText (target : UInt16) : String :=
  Text.hex 3 target.toNat

def separated (first second : String) : String :=
  first ++ ", " ++ second

def operandText : Instruction → Option String
  | .bare _ => none
  | .address .jump target => some (addressText target)
  | .address .call target => some (addressText target)
  | .address .loadIndex target => some (separated "I" (addressText target))
  | .address .jumpIndexed target => some (separated "v0" (addressText target))
  | .byte _ x value => some (separated (registerText x) (byteText value))
  | .pair _ x y => some (separated (registerText x) (registerText y))
  | .sprite x y rows =>
      some (separated (separated (registerText x) (registerText y))
        (Text.hex 1 rows.toNat))
  | .register .skipHeld x => some (registerText x)
  | .register .skipReleased x => some (registerText x)
  | .register .readDelay x => some (separated (registerText x) "DT")
  | .register .awaitKey x => some (separated (registerText x) "K")
  | .register .setDelay x => some (separated "DT" (registerText x))
  | .register .setSound x => some (separated "ST" (registerText x))
  | .register .addIndex x => some (separated "I" (registerText x))
  | .register .glyph x => some (separated "F" (registerText x))
  | .register .decimal x => some (separated "B" (registerText x))
  | .register .store x => some (separated "[I]" (registerText x))
  | .register .load x => some (separated (registerText x) "[I]")

def text (instruction : Instruction) : String :=
  match instruction.operandText with
  | none => instruction.opcode.mnemonic
  | some operands => Text.padEnd 7 instruction.opcode.mnemonic ++ operands

end Instruction

end Chip8
