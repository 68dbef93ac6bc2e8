import Chip8.Dialect
import Chip8.Memory

/-!
The reasons for which an operation is refused. A fault of an instruction names
the address the instruction was fetched from.
-/

namespace Chip8

inductive Fault
  | programTooLong (length : Nat)
  | fontTooHigh (base : UInt16)
  | outOfBounds (address : Nat) (pc : UInt16)
  | stackOverflow (word pc : UInt16)
  | stackUnderflow (word pc : UInt16)
  | unknownOpcode (word pc : UInt16)
  | noSuchKey (key : Nat)
  | noSuchRegister (register : Nat)
  | noSuchPreset (name : String)
  | poisoned
  deriving DecidableEq, Repr

namespace Fault

def located (word : UInt16) (joint : String) (pc : UInt16) : String :=
  Text.hex 4 word.toNat ++ joint ++ Text.hex 3 pc.toNat

def message : Fault → String
  | .programTooLong length =>
      "program of " ++ Text.decimal ' ' 1 length ++ " bytes does not fit in " ++
        Text.decimal ' ' 1 Region.program.capacity ++ " bytes of program space"
  | .fontTooHigh base =>
      "font at " ++ Text.hex 3 base.toNat ++ " would overlap program space"
  | .outOfBounds address pc =>
      "address " ++ Text.hex 4 address ++ " is out of bounds (pc " ++
        Text.hex 3 pc.toNat ++ ")"
  | .stackOverflow word pc => "stack overflow: " ++ located word " at " pc
  | .stackUnderflow word pc => "stack underflow: " ++ located word " at " pc
  | .unknownOpcode word pc => "opcode " ++ located word " not recognized at " pc
  | .noSuchKey key =>
      "tried to press key " ++ Text.capitalHex key ++ " which does not exist"
  | .noSuchRegister register =>
      "tried to access register v" ++ Text.capitalHex register ++ " which does not exist"
  | .noSuchPreset name => "no suitable conversion of \"" ++ name ++ "\" into Mode"
  | .poisoned => "interpreter lock poisoned by a panicking thread"

def name : Fault → String
  | .programTooLong _ => "InvalidProgram"
  | .fontTooHigh _ => "InvalidFont"
  | .outOfBounds _ _ => "MemoryOutOfBounds"
  | .stackOverflow _ _ => "StackOverflow"
  | .stackUnderflow _ _ => "StackUnderflow"
  | .unknownOpcode _ _ => "UnknownOpcode"
  | .noSuchKey _ => "InvalidKey"
  | .noSuchRegister _ => "InvalidRegister"
  | .noSuchPreset _ => "InvalidMode"
  | .poisoned => "Poisoned"

/-- What a fault tells beyond its name, each under its own label. -/
def details : Fault → List (String × String)
  | .programTooLong length => [("len", Text.decimal ' ' 1 length)]
  | .fontTooHigh base => [("addr", Text.decimal ' ' 1 base.toNat)]
  | .outOfBounds address pc =>
      [("addr", Text.decimal ' ' 1 address), ("pc", Text.decimal ' ' 1 pc.toNat)]
  | .stackOverflow word pc | .stackUnderflow word pc | .unknownOpcode word pc =>
      [("word", Text.decimal ' ' 1 word.toNat), ("pc", Text.decimal ' ' 1 pc.toNat)]
  | .noSuchKey key => [("key", Text.decimal ' ' 1 key)]
  | .noSuchRegister register => [("reg", Text.decimal ' ' 1 register)]
  | .noSuchPreset name => [("mode", "\"" ++ name ++ "\"")]
  | .poisoned => []

def record (fault : Fault) : String :=
  match fault.details with
  | [] => fault.name
  | details =>
      fault.name ++ " \x7b " ++
        String.intercalate ", " (details.map fun (label, value) => label ++ ": " ++ value) ++
        " \x7d"

end Fault

/-- A name that no preset has is kept in the fault as it was given. -/
def Preset.parse (name : String) : Except Fault Preset :=
  match Preset.ofName? name with
  | some preset => .ok preset
  | none => .error (.noSuchPreset name)

end Chip8
