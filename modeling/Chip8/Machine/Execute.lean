import Chip8.Machine
import Chip8.Registers.Arithmetic
import Chip8.Screen.Sprite

/-!
The effect of one instruction. When it executes, the program counter has already
moved past it and `fetched` tells where it stood. Whatever can fail is checked
before anything is written, so a fault leaves no trace of its instruction.
-/

namespace Chip8.Machine

def read (machine : Machine) (register : UInt64) : UInt8 :=
  machine.registers.read register.toNat

def write (machine : Machine) (register : UInt64) (value : UInt8) : Machine :=
  { machine with registers := machine.registers.write register.toNat value }

def skipIf (machine : Machine) (condition : Bool) : Machine :=
  if condition then { machine with pc := machine.pc + 2 } else machine

/-- Whether a block at the index register lies inside memory; an empty block
always does. -/
def Reaches (machine : Machine) (length : Nat) : Prop :=
  length = 0 ∨ machine.index.toNat + length ≤ Memory.size

instance (machine : Machine) (length : Nat) : Decidable (machine.Reaches length) :=
  inferInstanceAs (Decidable (length = 0 ∨ machine.index.toNat + length ≤ Memory.size))

/-- The first address, at or after the index register, that memory does not have. -/
def outOfReach (machine : Machine) : Fault :=
  .outOfBounds (max machine.index.toNat Memory.size) machine.fetched.address

/-- Continue if the block at the index register lies inside memory. -/
def withBlock (machine : Machine) (length : Nat) (result : Machine) :
    Except Fault Machine :=
  if machine.Reaches length then .ok result else .error machine.outOfReach

def block (machine : Machine) (length : Nat) : List UInt8 :=
  machine.memory.slice machine.index.toNat length

def storeBlock (machine : Machine) (values : List UInt8) : Machine :=
  { machine with memory := machine.memory.store machine.index.toNat values }

/-- A block transfer leaves the index register behind the block, unless the
dialect keeps it. -/
def passBlock (machine : Machine) (length : Nat) : Machine :=
  if machine.settings.dialect.keepsIndex then machine
  else { machine with index := machine.index + UInt16.ofNat length }

/-- The three decimal digits of a byte, the hundreds first. -/
def decimalDigits (value : UInt8) : List UInt8 :=
  [value / 100, value / 10 % 10, value % 10]

def executeBare (machine : Machine) : BareOp → Except Fault Machine
  | .clearScreen => .ok { machine with screen := .blank, drawn := true }
  | .ret =>
      match machine.stack with
      | [] => .error (.stackUnderflow machine.fetched.word machine.fetched.address)
      | address :: rest => .ok { machine with stack := rest, pc := address }

def executeAddress (machine : Machine) (target : UInt16) : AddressOp → Except Fault Machine
  | .jump => .ok { machine with pc := target }
  | .call =>
      if machine.stack.length < stackDepth then
        .ok { machine with stack := machine.pc :: machine.stack, pc := target }
      else .error (.stackOverflow machine.fetched.word machine.fetched.address)
  | .loadIndex => .ok { machine with index := target }
  | .jumpIndexed =>
      let register :=
        if machine.settings.dialect.jumpsByAddress then target.toNat / 256 else 0
      .ok { machine with pc := target + (machine.registers.read register).toUInt16 }

def executeByte (machine : Machine) (roll : UInt8) (x : UInt64) (value : UInt8) :
    ByteOp → Machine
  | .skipEqual => machine.skipIf (machine.read x == value)
  | .skipUnequal => machine.skipIf (machine.read x != value)
  | .load => machine.write x value
  | .add => machine.write x (machine.read x + value)
  | .random => machine.write x (roll &&& value)

def executePair (machine : Machine) (op : PairOp) (x y : UInt64) : Machine :=
  let registers := machine.registers
  { machine with
    registers := registers.combine machine.settings.dialect op x.toNat y.toNat }.skipIf
      (registers.skips op x.toNat y.toNat)

/-- The flag register tells whether a lit point was put out. -/
def executeSprite (machine : Machine) (x y : UInt64) (rows : UInt8) :
    Except Fault Machine :=
  let corner : Point := ⟨(machine.read x).toNat, (machine.read y).toNat⟩
  let (screen, collided) :=
    machine.screen.draw machine.settings.dialect.wrapsSprites corner
      (machine.block rows.toNat)
  machine.withBlock rows.toNat
    { machine with
      screen := screen
      registers := machine.registers.writeFlag collided
      drawn := machine.drawn || 0 < rows }

def executeRegister (machine : Machine) (x : UInt64) : RegisterOp → Except Fault Machine
  | .skipHeld => .ok (machine.skipIf (machine.keypad.isHeld (machine.read x).toNat))
  | .skipReleased => .ok (machine.skipIf !(machine.keypad.isHeld (machine.read x).toNat))
  | .readDelay => .ok (machine.write x machine.delay)
  | .awaitKey => .ok { machine with state := .awaitingKey x }
  | .setDelay => .ok { machine with delay := machine.read x }
  | .setSound => .ok { machine with sound := machine.read x }
  | .addIndex =>
      let sum := machine.index.toNat + (machine.read x).toNat
      .ok { machine with
        registers := machine.registers.writeFlag (0xfff < sum)
        index := UInt16.ofNat sum }
  | .glyph =>
      let offset := Glyphs.height * (machine.read x).toNat
      .ok { machine with index := machine.font + UInt16.ofNat offset }
  | .decimal =>
      machine.withBlock 3 (machine.storeBlock (decimalDigits (machine.read x)))
  | .store =>
      let length := x.toNat + 1
      machine.withBlock length
        ((machine.storeBlock (machine.registers.take length)).passBlock length)
  | .load =>
      let length := x.toNat + 1
      machine.withBlock length
        (passBlock
          { machine with
            registers := machine.registers.writeFrom 0 (machine.block length) } length)

/-- `roll` is the byte that chance gives to the instruction. -/
def execute (machine : Machine) (roll : UInt8) : Instruction → Except Fault Machine
  | .bare op => machine.executeBare op
  | .address op target => machine.executeAddress target op
  | .byte op x value => .ok (machine.executeByte roll x value op)
  | .pair op x y => .ok (machine.executePair op x y)
  | .sprite x y rows => machine.executeSprite x y rows
  | .register op x => machine.executeRegister x op

end Chip8.Machine
