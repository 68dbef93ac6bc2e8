import Chip8.Disassembler
import Chip8.Fault
import Chip8.Keypad
import Chip8.Registers
import Chip8.Screen

/-!
The whole state of an interpreter, and what a host may do to it between
instructions: load a program, reset it, change a key, let the timers run down,
set a register. A refused request comes with its reason in `Reply.result`.
-/

namespace Chip8

inductive RunState
  | running
  | awaitingKey (register : UInt64)
  deriving DecidableEq, Repr

structure Fetch where
  address : UInt16
  word : UInt16
  deriving DecidableEq, Repr

structure Machine where
  settings : Settings
  /-- The address of the glyph of digit zero. -/
  font : UInt16
  memory : Memory
  screen : Screen
  /-- The addresses to return to, the latest first. -/
  stack : List UInt16
  pc : UInt16
  index : UInt16
  registers : Registers
  delay : UInt8
  sound : UInt8
  keypad : Keypad
  /-- Whether the last instruction may have changed the screen. -/
  drawn : Bool
  state : RunState
  /-- The number of instructions executed. -/
  cycle : Nat
  fetched : Fetch
  disassembler : Disassembler
  deriving DecidableEq

/-- What a request answers, and the machine it leaves behind. -/
structure Reply (α : Type) where
  result : Except Fault α
  machine : Machine

namespace Machine

def stackDepth : Nat := 16

def entry : UInt16 := UInt16.ofNat Region.program.start

def isAwaitingKey (machine : Machine) : Bool :=
  match machine.state with
  | .running => false
  | .awaitingKey _ => true

def empty (font : UInt16) (disassembler : Disassembler) (settings : Settings) : Machine :=
  { settings := settings
    font := font
    memory := .zeroed
    screen := .blank
    stack := []
    pc := entry
    index := 0
    registers := .zeroed
    delay := 0
    sound := 0
    keypad := .released
    drawn := false
    state := .running
    cycle := 0
    fetched := { address := entry, word := 0 }
    disassembler := disassembler }

/-- All but the settings, the font's place, the memory and the disassembler
returns to what it was at the start. -/
def reset (machine : Machine) : Machine :=
  { empty machine.font machine.disassembler machine.settings with
    memory := machine.memory }

/-- A program that is too long is refused before anything changes. -/
def load (machine : Machine) (program : List UInt8) : Reply Unit :=
  if Region.program.capacity < program.length then
    { result := .error (.programTooLong program.length), machine := machine }
  else
    let cleared := { machine.reset with memory := .zeroed }
    match cleared.memory.loadGlyphs? machine.font.toNat with
    | none => { result := .error (.fontTooHigh machine.font), machine := cleared }
    | some glyphs =>
        match glyphs.loadRegion? .program program with
        | none =>
            { result := .error (.programTooLong program.length)
              machine := { cleared with memory := glyphs } }
        | some memory =>
            { result := .ok (), machine := { cleared with memory := memory } }

/-- A machine with an empty program; its font must end before the program. -/
def create (font : UInt16) (disassembler : Disassembler) (settings : Settings) :
    Except Fault Machine :=
  if Region.program.start < font.toNat + Glyphs.bytes.length then
    .error (.fontTooHigh font)
  else
    let reply := (empty font disassembler settings).load []
    reply.result.map fun _ => reply.machine

/-- The machine whose font is at the start of memory. -/
def standard : Machine :=
  { empty 0 .coloured .standard with memory := Memory.zeroed.store 0 Glyphs.bytes }

def setRegister (machine : Machine) (register : Nat) (value : UInt8) : Reply Unit :=
  if register < Registers.count then
    { result := .ok ()
      machine := { machine with registers := machine.registers.write register value } }
  else { result := .error (.noSuchRegister register), machine := machine }

/-- Press or release a key, and tell whether that changed it. A press, even of a
key that is already held, ends the wait for a key. -/
def changeKey (machine : Machine) (key : Nat) (pressed : Bool) : Reply Bool :=
  if key < Keypad.count then
    let changed := machine.keypad.isHeld key != pressed
    let touched := { machine with keypad := machine.keypad.set key pressed }
    match pressed, machine.state with
    | true, .awaitingKey register =>
        let stored := touched.setRegister register.toNat (UInt8.ofNat key)
        match stored.result with
        | .error fault => { result := .error fault, machine := stored.machine }
        | .ok () =>
            { result := .ok changed, machine := { stored.machine with state := .running } }
    | _, _ => { result := .ok changed, machine := touched }
  else { result := .error (.noSuchKey key), machine := machine }

/-- A timer stops at zero. -/
def countDown (timer : UInt8) : UInt8 := if timer = 0 then 0 else timer - 1

def toneEnds (machine : Machine) : Bool := machine.sound == 1

def decrementTimers (machine : Machine) : Machine :=
  { machine with delay := countDown machine.delay, sound := countDown machine.sound }

theorem toNat_countDown (timer : UInt8) : (countDown timer).toNat = timer.toNat - 1 := by
  unfold countDown
  split
  · rename_i zero
    rw [zero]
    rfl
  · rename_i nonzero
    have positive : 1 ≤ timer := by
      rw [UInt8.le_iff_toNat_le]
      exact Nat.one_le_iff_ne_zero.mpr fun zero => nonzero (UInt8.toNat_inj.mp zero)
    rw [UInt8.toNat_sub_of_le _ _ positive]
    rfl

end Machine

end Chip8
