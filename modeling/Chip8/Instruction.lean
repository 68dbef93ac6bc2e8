import Chip8.Opcode

/-!
Instructions are opcodes with their operands. Operand types are wider than the
fields of an instruction word, so an instruction may name a register or address
that no word can carry; writing it into a word keeps the low digits.
-/

namespace Chip8

inductive Instruction
  | bare (op : BareOp)
  | address (op : AddressOp) (target : UInt16)
  | byte (op : ByteOp) (x : UInt64) (value : UInt8)
  | pair (op : PairOp) (x y : UInt64)
  | sprite (x y : UInt64) (rows : UInt8)
  | register (op : RegisterOp) (x : UInt64)
  deriving DecidableEq, Repr

namespace Instruction

def opcode : Instruction → Opcode
  | .bare op => .bare op
  | .address op _ => .address op
  | .byte op _ _ => .byte op
  | .pair op _ _ => .pair op
  | .sprite _ _ _ => .sprite
  | .register op _ => .register op

/-- The operand in each field; a field that the opcode lacks holds zero. -/
def operand : Instruction → Field → Nat
  | .address _ target, .address => target.toNat
  | .byte _ x _, .x => x.toNat
  | .byte _ _ value, .byte => value.toNat
  | .pair _ x _, .x => x.toNat
  | .pair _ _ y, .y => y.toNat
  | .sprite x _ _, .x => x.toNat
  | .sprite _ y _, .y => y.toNat
  | .sprite _ _ rows, .n => rows.toNat
  | .register _ x, .x => x.toNat
  | _, _ => 0

def ofOperands (opcode : Opcode) (operand : Field → Nat) : Instruction :=
  match opcode with
  | .bare op => .bare op
  | .address op => .address op (UInt16.ofNat (operand .address))
  | .byte op => .byte op (UInt64.ofNat (operand .x)) (UInt8.ofNat (operand .byte))
  | .pair op => .pair op (UInt64.ofNat (operand .x)) (UInt64.ofNat (operand .y))
  | .sprite =>
      .sprite (UInt64.ofNat (operand .x)) (UInt64.ofNat (operand .y))
        (UInt8.ofNat (operand .n))
  | .register op => .register op (UInt64.ofNat (operand .x))

theorem ofOperands_operand (instruction : Instruction) :
    ofOperands instruction.opcode instruction.operand = instruction := by
  cases instruction <;> simp [ofOperands, opcode, operand]

def ofWord? (word : UInt16) : Option Instruction :=
  (Opcode.ofWord? word).map fun opcode =>
    ofOperands opcode (opcode.pattern.extract (Word.digits word))

def toWord (instruction : Instruction) : UInt16 :=
  Word.ofDigits (instruction.opcode.pattern.fill instruction.operand)

/-- Only the first two bytes are read. -/
def ofBytes? : List UInt8 → Option Instruction
  | high :: low :: _ => ofWord? (Word.ofBytes high low)
  | _ => none

/-- The instruction takes the place of the first two bytes of a buffer. -/
def write? (instruction : Instruction) : List UInt8 → Option (List UInt8)
  | _ :: _ :: rest =>
      some (Word.high instruction.toWord :: Word.low instruction.toWord :: rest)
  | _ => none

def size : Nat := 2

/-- The only instruction whose effect depends on chance. -/
def isRandom : Instruction → Bool
  | .byte .random _ _ => true
  | _ => false

end Instruction

end Chip8
