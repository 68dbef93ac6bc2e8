import Chip8.Dialect
import Chip8.Opcode
import Chip8.Registers

/-!
Register arithmetic: the operations on two registers that leave their result in
the first. Bytes wrap; addition, subtraction and shifts tell in the flag register
what was lost. An operation whose own registers include the flag depends on the
order of the two writes: addition writes its flag last, subtractions and shifts
write it first unless the dialect has it last.
-/

namespace Chip8.Registers

/-- Writes a flag and a result. When the flag goes first, the result is computed
from the registers that already hold it. -/
def writeFlagged (registers : Registers) (flagLast : Bool) (x : Nat) (raised : Bool)
    (result : Registers → UInt8) : Registers :=
  if flagLast then (registers.write x (result registers)).writeFlag raised
  else
    let flagged := registers.writeFlag raised
    flagged.write x (result flagged)

def writeBitwise (registers : Registers) (clearsFlag : Bool) (x : Nat) (result : UInt8) :
    Registers :=
  let written := registers.write x result
  if clearsFlag then written.write flag 0 else written

/-- The sum wraps, and the flag tells whether it did. -/
def addCarry (registers : Registers) (x y : Nat) : Registers :=
  let left := registers.read x
  let right := registers.read y
  (registers.write x (left + right)).writeFlag (256 ≤ left.toNat + right.toNat)

def shiftSource (dialect : Dialect) (x y : Nat) : Nat :=
  if dialect.shiftsSecond then y else x

/-- The effect of an operation on registers `x` and `y`; a skip changes none. -/
def combine (registers : Registers) (dialect : Dialect) (op : PairOp) (x y : Nat) :
    Registers :=
  let source := shiftSource dialect x y
  match op with
  | .skipEqual => registers
  | .skipUnequal => registers
  | .load => registers.write x (registers.read y)
  | .or => registers.writeBitwise dialect.clearsFlag x (registers.read x ||| registers.read y)
  | .and => registers.writeBitwise dialect.clearsFlag x (registers.read x &&& registers.read y)
  | .xor => registers.writeBitwise dialect.clearsFlag x (registers.read x ^^^ registers.read y)
  | .add => registers.addCarry x y
  | .subtract =>
      registers.writeFlagged dialect.flagLast x (registers.read y ≤ registers.read x)
        fun current => current.read x - current.read y
  | .shiftRight =>
      registers.writeFlagged dialect.flagLast x (registers.read source % 2 == 1)
        fun current => current.read source / 2
  | .subtractFrom =>
      registers.writeFlagged dialect.flagLast x (registers.read x ≤ registers.read y)
        fun current => current.read y - current.read x
  | .shiftLeft =>
      registers.writeFlagged dialect.flagLast x (128 ≤ registers.read source)
        fun current => 2 * current.read source

def skips (registers : Registers) (op : PairOp) (x y : Nat) : Bool :=
  match op with
  | .skipEqual => registers.read x == registers.read y
  | .skipUnequal => registers.read x != registers.read y
  | _ => false

end Chip8.Registers
