import Chip8.Machine

/-!
The register report: the program counter, stack depth and index register, then
the registers in four lines of four, then the timers and the cycle count.
-/

namespace Chip8.Machine

/-- Every fourth register ends its line. -/
def registerEntry (machine : Machine) (register : Nat) : String :=
  "v" ++ Text.capitalHex register ++ ": " ++
    Text.hex 2 (machine.registers.read register).toNat ++ " " ++
    (if register % 4 = 3 then "\n" else "")

def addressLine (machine : Machine) : String :=
  "PC: " ++ Text.hex 4 machine.pc.toNat ++ ", SP: " ++ Text.hex 4 machine.stack.length ++
    ", I: " ++ Text.hex 4 machine.index.toNat ++ "\n"

def timerLine (machine : Machine) : String :=
  "DLY: " ++ Text.decimal ' ' 1 machine.delay.toNat ++
    ", SND: " ++ Text.decimal ' ' 1 machine.sound.toNat ++
    ", CYC: " ++ Text.decimal ' ' 6 machine.cycle ++ "\n"

def report (machine : Machine) : String :=
  machine.addressLine ++
    String.join ((List.range Registers.count).map machine.registerEntry) ++
    machine.timerLine

end Chip8.Machine
