import Chip8.CommandLine
import Chip8.Machine.Report
import Chip8.Runner
import Chip8.Screen.Picture
import Chip8.Text.Natural

/-!
The command line that runs a program file and then shows the screen and the
registers.
-/

namespace Chip8.CommandLine.Runner

inductive Id
  | help
  | debug
  | cycles
  | speed
  | key
  | mode
  | clearsFlag
  | keepsIndex
  | shiftsSecond
  | jumpsByAddress
  | wrapsSprites
  | flagLast
  deriving DecidableEq, Repr

def standardCycles : Nat := 1000

def program : Program Id :=
  { name := "ch8-run"
    fileHelp := "Load a ROM to run."
    choices :=
      [{ id := .help, letter := 'h', name := "help", operand := none
         help := "Print this help message." },
        { id := .debug, letter := 'd', name := "debug", operand := none
          help := "Print each instruction as it's executed." },
        { id := .cycles, letter := 'n', name := "cycles", operand := some "N"
          help := "Stop after this many instructions. (default: " ++
            Text.decimal ' ' 1 standardCycles ++ ")" },
        { id := .speed, letter := 's', name := "speed", operand := some "SPEED"
          help := "Set the instructions-per-second rate. If unspecified, run unthrottled." },
        { id := .key, letter := 'k', name := "key", operand := some "KEY"
          help := "Answer every key wait with this key." },
        { id := .mode, letter := 'm', name := "mode", operand := some "MODE"
          help := "Run in (Chip8, VIP, SChip) mode." },
        { id := .clearsFlag, letter := 'z', name := "vfreset", operand := none
          help := "Toggle setting vF to 0 after a bitwise operation." },
        { id := .keepsIndex, letter := 'c', name := "memory", operand := none
          help := "Toggle CHIP-48 style DMA instructions, which don't touch I." },
        { id := .shiftsSecond, letter := 'v', name := "shift", operand := none
          help := "Toggle COSMAC style bit-shifts, which source from vY." },
        { id := .jumpsByAddress, letter := 'b', name := "jumping", operand := none
          help := "Toggle SUPER-CHIP style indexed jump, relative to v[adr]." },
        { id := .wrapsSprites, letter := 'w', name := "wrap", operand := none
          help := "Toggle sprites wrapping around the edges of the screen." },
        { id := .flagLast, letter := 'f', name := "flaglast", operand := none
          help := "Toggle writing vF after the result of 8xy5/6/7/E." }] }

structure Options where
  help : Bool
  file : Option String
  debug : Bool
  cycles : Nat
  /-- The instructions to execute in a second, for a host that paces its runs. -/
  speed : Option Nat
  key : Option Nat
  preset : Preset
  /-- The choices in which the run differs from the preset's dialect. -/
  toggles : Dialect
  deriving DecidableEq, Repr

namespace Options

def initial : Options :=
  { help := false
    file := none
    debug := false
    cycles := standardCycles
    speed := none
    key := none
    preset := .standard
    toggles := .modern }

def switch (options : Options) : Id → Options
  | .help => { options with help := true }
  | .debug => { options with debug := true }
  | .clearsFlag => { options with toggles.clearsFlag := true }
  | .keepsIndex => { options with toggles.keepsIndex := true }
  | .shiftsSecond => { options with toggles.shiftsSecond := true }
  | .jumpsByAddress => { options with toggles.jumpsByAddress := true }
  | .wrapsSprites => { options with toggles.wrapsSprites := true }
  | .flagLast => { options with toggles.flagLast := true }
  | _ => options

def number (shown operand : String) (radix bound : Nat) : Except Complaint Nat :=
  match Text.natural radix bound operand with
  | .ok value => .ok value
  | .error fault => .error (.invalidOperand shown fault.message)

def setting (options : Options) (shown operand : String) : Id → Except Complaint Options
  | .cycles => do
      let cycles ← number shown operand 10 UInt64.size
      .ok { options with cycles }
  | .speed => do
      let speed ← number shown operand 10 UInt64.size
      .ok { options with speed := some speed }
  | .key => do
      let key ← number shown operand 16 UInt8.size
      .ok { options with key := some key }
  | .mode =>
      match Preset.parse operand with
      | .ok preset => .ok { options with preset }
      | .error fault => .error (.invalidOperand shown fault.message)
  | _ => .ok options

def take (options : Options) : Occurrence Id → Except Complaint Options
  | .switch id => .ok (options.switch id)
  | .setting id shown operand => options.setting shown operand id
  | .free argument =>
      if options.file.isSome then .error (.unexpectedFree argument)
      else .ok { options with file := some argument }

def settings (options : Options) : Settings :=
  { traces := options.debug
    paused := false
    dialect := options.preset.dialect.toggle options.toggles }

end Options

def endingText (painter : Text.Painter) : Runner.Ending → String
  | .limitReached => ""
  | .noKey => painter.tint .yellow "Waiting for a key, but none was given (-k)" ++ "\n"
  | .failed fault => painter.tint .red (painter.paint .emphatic fault.message) ++ "\n"

def beepText (painter : Text.Painter) (beeps : Nat) : String :=
  painter.tint .grey (Text.decimal ' ' 1 beeps ++ " beep(s)") ++ "\n"

/-- Run a machine and show what it leaves. No time passes for its timers, so they
end no tone. -/
def play (painter : Text.Painter) (options : Options) (dice : Dice) (machine : Machine) :
    Exit :=
  let (run, ending) := Runner.runFrom options.cycles options.key machine dice
  { code := 0
    output :=
      run.printed painter ++ run.machine.screen.dotPicture ++ "\n" ++ run.machine.report
    errors := endingText painter ending ++ beepText painter 0 }

def prepare (options : Options) (contents : List UInt8) : Except Fault Machine := do
  let machine ← Machine.create 0 .coloured options.settings
  let reply := machine.load contents
  reply.result
  .ok reply.machine

/-- A program that cannot be loaded is a failure; a fault while it runs is not. -/
def playFile (painter : Text.Painter) (dice : Dice) (options : Options)
    (contents : List UInt8) : Exit :=
  match prepare options contents with
  | .error fault => .failure fault.record
  | .ok machine => play painter options dice machine

def plan (reader : Reader Id) (arguments : List String) : Plan Options :=
  match (reader.read program.choices arguments).apply Options.take .initial with
  | .error complaint => .now (program.refuse complaint)
  | .ok options => program.plan options.help options.file options

def run (painter : Text.Painter) (reader : Reader Id)
    (fileNamed : String → Except FileFault (List UInt8)) (dice : Dice)
    (arguments : List String) : Exit :=
  (plan reader arguments).run (playFile painter dice) fileNamed

end Chip8.CommandLine.Runner
