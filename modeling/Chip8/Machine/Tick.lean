import Chip8.Machine.Execute

/-!
Ticks: fetch a word, decode it, execute the instruction. A tick of a machine that
is paused or awaits a key does nothing at all. `multistep` ticks up to a number of
times and ends early at a fault or a wait for a key.
-/

namespace Chip8

/-- A source of random bytes and the number of them already taken. -/
structure Dice where
  source : Nat → UInt8
  taken : Nat

namespace Dice

def roll (dice : Dice) : UInt8 := dice.source dice.taken

def next (dice : Dice) : Dice := { dice with taken := dice.taken + 1 }

end Dice

structure TraceLine where
  cycle : Nat
  address : UInt16
  text : Text.Styled
  deriving DecidableEq, Repr

/-- The cycle in grey, the address, and the text padded to a fixed column. -/
def TraceLine.render (painter : Text.Painter) (line : TraceLine) : String :=
  painter.tint .grey (Text.decimal ' ' 3 line.cycle) ++ " " ++
    Text.hex 3 line.address.toNat ++ ": " ++ Text.padEnd 36 (line.text.painted painter) ++ "\n"

/-- A reply with the dice it leaves behind and the lines it printed, the latest
first. -/
structure Outcome (α : Type) extends Reply α where
  dice : Dice
  trace : List TraceLine

namespace Outcome

def failed {α : Type} (outcome : Outcome α) : Bool :=
  match outcome.result with
  | .ok _ => false
  | .error _ => true

def printed {α : Type} (painter : Text.Painter) (outcome : Outcome α) : String :=
  String.join (outcome.trace.reverse.map (TraceLine.render painter))

end Outcome

namespace Machine

def isIdle (machine : Machine) : Bool := machine.settings.paused || machine.isAwaitingKey

/-- The machine that has read a word and moved past it. -/
def afterFetch (machine : Machine) (word : UInt16) : Machine :=
  { machine with
    pc := machine.pc + 2
    drawn := false
    fetched := { address := machine.pc, word := word } }

def countCycle (machine : Machine) : Machine :=
  { machine with cycle := machine.cycle + 1 }

/-- The line that tells about the word fetched last, if the machine traces. -/
def traceLines (machine : Machine) : List TraceLine :=
  if machine.settings.traces then
    [{ cycle := machine.cycle
       address := machine.fetched.address
       text := machine.disassembler.styled machine.fetched.word }]
  else []

/-- Execute an instruction that has been fetched. Only a random instruction takes
a byte from the dice. -/
def perform (machine : Machine) (dice : Dice) (instruction : Instruction) : Outcome Unit :=
  let counted := machine.countCycle
  let diceAfter := if instruction.isRandom then dice.next else dice
  match counted.execute dice.roll instruction with
  | .error fault =>
      { result := .error fault
        machine := counted
        dice := diceAfter
        trace := counted.traceLines }
  | .ok after =>
      { result := .ok ()
        machine := after
        dice := diceAfter
        trace := counted.traceLines }

def tick (machine : Machine) (dice : Dice) : Outcome Unit :=
  if machine.isIdle then { result := .ok (), machine, dice, trace := [] }
  else
    match machine.memory.word? machine.pc.toNat with
    | none =>
        { result := .error (.outOfBounds machine.pc.toNat machine.pc)
          machine, dice, trace := [] }
    | some word =>
        let fetched := machine.afterFetch word
        match Instruction.ofWord? word with
        | none =>
            { result := .error (.unknownOpcode word machine.pc)
              machine := fetched
              dice := dice
              trace := fetched.traceLines }
        | some instruction => fetched.perform dice instruction

end Machine

namespace Outcome

/-- The run so far, followed by one tick. -/
def tick (outcome : Outcome Unit) : Outcome Unit :=
  let after := outcome.machine.tick outcome.dice
  { after with trace := after.trace ++ outcome.trace }

def isStopped (outcome : Outcome Unit) : Bool :=
  outcome.failed || outcome.machine.isAwaitingKey

def multistep (outcome : Outcome Unit) : Nat → Outcome Unit
  | 0 => outcome
  | count + 1 => if outcome.isStopped then outcome else outcome.tick.multistep count

end Outcome

namespace Machine

def start (machine : Machine) (dice : Dice) : Outcome Unit :=
  { result := .ok (), machine, dice, trace := [] }

def multistep (machine : Machine) (dice : Dice) (count : Nat) : Outcome Unit :=
  (machine.start dice).multistep count

end Machine

end Chip8
