import Chip8.CommandLine
import Chip8.Listing
import Chip8.Memory
import Chip8.Text.Natural

/-!
The command line that lists a program file.
-/

namespace Chip8.CommandLine.Lister

inductive Id
  | help
  | address
  | offset
  | plain
  deriving DecidableEq, Repr

def program : Program Id :=
  { name := "ch8-disasm"
    fileHelp := "Load a ROM to disassemble"
    choices :=
      [{ id := .help, letter := 'h', name := "help", operand := none
         help := "Show help text" },
        { id := .address, letter := 'l', name := "loadaddr", operand := some "ADR"
          help := "Load address (default 200)" },
        { id := .offset, letter := 'o', name := "offset", operand := some "OFFSET"
          help := "Start disassembling at offset..." },
        { id := .plain, letter := 'p', name := "plain", operand := none
          help := "Print without colors" }] }

structure Options where
  help : Bool
  file : Option String
  address : Nat
  offset : Nat
  coloured : Bool
  deriving DecidableEq, Repr

namespace Options

def initial : Options :=
  { help := false
    file := none
    address := Region.program.start
    offset := 0
    coloured := true }

def take (options : Options) : Occurrence Id → Except Complaint Options
  | .switch .help => .ok { options with help := true }
  | .switch .plain => .ok { options with coloured := false }
  | .setting .address shown operand =>
      match Text.natural 16 UInt16.size operand with
      | .ok address => .ok { options with address }
      | .error fault => .error (.invalidOperand shown fault.message)
  | .setting .offset shown operand =>
      match Text.natural 10 UInt64.size operand with
      | .ok offset => .ok { options with offset }
      | .error fault => .error (.invalidOperand shown fault.message)
  | .free argument =>
      if options.file.isSome then .error (.unexpectedFree argument)
      else .ok { options with file := some argument }
  | _ => .ok options

end Options

def list (painter : Text.Painter) (options : Options) (contents : List UInt8) : Exit :=
  { code := 0
    output := String.join
      (Listing.lines painter options.coloured options.address options.offset contents)
    errors := "" }

def plan (reader : Reader Id) (arguments : List String) : Plan Options :=
  match (reader.read program.choices arguments).apply Options.take .initial with
  | .error complaint => .now (program.refuse complaint)
  | .ok options => program.plan options.help options.file options

def run (painter : Text.Painter) (reader : Reader Id)
    (fileNamed : String → Except FileFault (List UInt8)) (arguments : List String) : Exit :=
  (plan reader arguments).run (list painter) fileNamed

end Chip8.CommandLine.Lister
