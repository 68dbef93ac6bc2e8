import Chip8.Proofs.Invariant

/-!
Operations with partial accesses. Here a register, a point of the screen or a range of
memory that does not exist can be neither read nor written, and an addition to the program
counter must not wrap; an operation that tries gives nothing. On a reachable machine no
operation tries, so the values that stand in for missing ones are never used.
-/

namespace Chip8.Strict

/-! ### Partial accesses -/

def readRegister (registers : Registers) (register : Nat) : Option UInt8 :=
  registers.cells[register]?

def writeRegister (registers : Registers) (register : Nat) (value : UInt8) :
    Option Registers :=
  if existing : register < 16 then
    some { cells := registers.cells.set register value existing }
  else none

def takeRegisters (registers : Registers) (length : Nat) : Option (List UInt8) :=
  if length ≤ 16 then some (registers.take length) else none

def fillRegisters (registers : Registers) (length : Nat) (values : List UInt8) :
    Option Registers :=
  if length ≤ 16 ∧ values.length = length then some (registers.writeFrom 0 values) else none

def advance (pc : UInt16) (offset : Nat) : Option UInt16 :=
  if pc.toNat + offset < 65536 then some (UInt16.ofNat (pc.toNat + offset)) else none

def toggle (screen : Screen) (point : Point) : Option (Screen × Bool) :=
  if existing : point.x < 64 ∧ point.y < 32 then
    let row := screen.rows.get ⟨point.y, existing.2⟩
    some
      ({ rows := screen.rows.set point.y (row ^^^ Screen.column point.x) existing.2 },
        row.getMsbD point.x)
  else none

def toggleEach (screen : Screen) : List Point → Option (Screen × Bool)
  | [] => some (screen, false)
  | point :: points => do
      let (toggled, lit) ← toggle screen point
      let (after, collided) ← toggleEach toggled points
      return (after, lit || collided)

/-- The block at the index register; an empty block is taken from the start of memory. -/
def block (machine : Machine) (length : Nat) : Option (List UInt8) :=
  let start := if length = 0 then 0 else machine.index.toNat
  machine.memory.range? start (start + length)

/-! ### Instructions -/

def writeFlagged (registers : Registers) (flagLast : Bool) (x : Nat) (raised : Bool)
    (result : Registers → Option UInt8) : Option Registers :=
  if flagLast then do
    let written ← writeRegister registers x (← result registers)
    writeRegister written Registers.flag (Registers.bit raised)
  else do
    let flagged ← writeRegister registers Registers.flag (Registers.bit raised)
    writeRegister flagged x (← result flagged)

def writeBitwise (registers : Registers) (clearsFlag : Bool) (x : Nat) (result : UInt8) :
    Option Registers := do
  let written ← writeRegister registers x result
  if clearsFlag then writeRegister written Registers.flag 0 else return written

def combine (registers : Registers) (dialect : Dialect) (op : PairOp) (x y : Nat) :
    Option Registers := do
  let source := Registers.shiftSource dialect x y
  match op with
  | .skipEqual => return registers
  | .skipUnequal => return registers
  | .load => writeRegister registers x (← readRegister registers y)
  | .or =>
      writeBitwise registers dialect.clearsFlag x
        ((← readRegister registers x) ||| (← readRegister registers y))
  | .and =>
      writeBitwise registers dialect.clearsFlag x
        ((← readRegister registers x) &&& (← readRegister registers y))
  | .xor =>
      writeBitwise registers dialect.clearsFlag x
        ((← readRegister registers x) ^^^ (← readRegister registers y))
  | .add =>
      let left ← readRegister registers x
      let right ← readRegister registers y
      let written ← writeRegister registers x (left + right)
      writeRegister written Registers.flag
        (Registers.bit (256 ≤ left.toNat + right.toNat))
  | .subtract =>
      let noBorrow := (← readRegister registers y) ≤ (← readRegister registers x)
      writeFlagged registers dialect.flagLast x noBorrow fun current => do
        return (← readRegister current x) - (← readRegister current y)
  | .shiftRight =>
      let lost := (← readRegister registers source) % 2 == 1
      writeFlagged registers dialect.flagLast x lost fun current => do
        return (← readRegister current source) / 2
  | .subtractFrom =>
      let noBorrow := (← readRegister registers x) ≤ (← readRegister registers y)
      writeFlagged registers dialect.flagLast x noBorrow fun current => do
        return (← readRegister current y) - (← readRegister current x)
  | .shiftLeft =>
      let lost := 128 ≤ (← readRegister registers source)
      writeFlagged registers dialect.flagLast x lost fun current => do
        return 2 * (← readRegister current source)

def skips (registers : Registers) (op : PairOp) (x y : Nat) : Option Bool := do
  match op with
  | .skipEqual => return (← readRegister registers x) == (← readRegister registers y)
  | .skipUnequal => return (← readRegister registers x) != (← readRegister registers y)
  | _ => return false

def read (machine : Machine) (register : UInt64) : Option UInt8 :=
  readRegister machine.registers register.toNat

def write (machine : Machine) (register : UInt64) (value : UInt8) : Option Machine := do
  let registers ← writeRegister machine.registers register.toNat value
  return { machine with registers := registers }

def skipIf (machine : Machine) (condition : Bool) : Option Machine := do
  if condition then return { machine with pc := ← advance machine.pc 2 } else return machine

/-- Only an indexed jump of these touches a register. -/
def executeAddress (machine : Machine) (target : UInt16) :
    AddressOp → Option (Except Fault Machine)
  | .jumpIndexed => do
      let register :=
        if machine.settings.dialect.jumpsByAddress then target.toNat / 256 else 0
      let offset ← readRegister machine.registers register
      return .ok { machine with pc := ← advance target offset.toNat }
  | op => return machine.executeAddress target op

def executeByte (machine : Machine) (roll : UInt8) (x : UInt64) (value : UInt8) :
    ByteOp → Option Machine
  | .skipEqual => do skipIf machine ((← read machine x) == value)
  | .skipUnequal => do skipIf machine ((← read machine x) != value)
  | .load => write machine x value
  | .add => do write machine x ((← read machine x) + value)
  | .random => write machine x (roll &&& value)

def executePair (machine : Machine) (op : PairOp) (x y : UInt64) : Option Machine := do
  let registers ← combine machine.registers machine.settings.dialect op x.toNat y.toNat
  let skip ← skips machine.registers op x.toNat y.toNat
  skipIf { machine with registers := registers } skip

def executeSprite (machine : Machine) (x y : UInt64) (rows : UInt8) :
    Option (Except Fault Machine) := do
  let corner : Point := ⟨(← read machine x).toNat, (← read machine y).toNat⟩
  if machine.Reaches rows.toNat then
    let sprite ← block machine rows.toNat
    let (screen, collided) ←
      toggleEach machine.screen
        (Screen.landed machine.settings.dialect.wrapsSprites corner sprite)
    let registers ←
      writeRegister machine.registers Registers.flag (Registers.bit collided)
    return .ok
      { machine with
        screen := screen
        registers := registers
        drawn := machine.drawn || 0 < rows }
  else return .error machine.outOfReach

def executeRegister (machine : Machine) (x : UInt64) :
    RegisterOp → Option (Except Fault Machine)
  | .skipHeld => do
      return .ok (← skipIf machine (machine.keypad.isHeld (← read machine x).toNat))
  | .skipReleased => do
      return .ok (← skipIf machine !(machine.keypad.isHeld (← read machine x).toNat))
  | .readDelay => do return .ok (← write machine x machine.delay)
  | .awaitKey => return .ok { machine with state := .awaitingKey x }
  | .setDelay => do return .ok { machine with delay := ← read machine x }
  | .setSound => do return .ok { machine with sound := ← read machine x }
  | .addIndex => do
      let sum := machine.index.toNat + (← read machine x).toNat
      let registers ←
        writeRegister machine.registers Registers.flag (Registers.bit (0xfff < sum))
      return .ok { machine with registers := registers, index := UInt16.ofNat sum }
  | .glyph => do
      let offset := Glyphs.height * (← read machine x).toNat
      return .ok { machine with index := machine.font + UInt16.ofNat offset }
  | .decimal => do
      let value ← read machine x
      if machine.Reaches 3 then
        let memory ←
          machine.memory.write? machine.index.toNat (Machine.decimalDigits value)
        return .ok { machine with memory := memory }
      else return .error machine.outOfReach
  | .store => do
      let length := x.toNat + 1
      if machine.Reaches length then
        let values ← takeRegisters machine.registers length
        let memory ← machine.memory.write? machine.index.toNat values
        return .ok ({ machine with memory := memory }.passBlock length)
      else return .error machine.outOfReach
  | .load => do
      let length := x.toNat + 1
      if machine.Reaches length then
        let registers ← fillRegisters machine.registers length (← block machine length)
        return .ok ({ machine with registers := registers }.passBlock length)
      else return .error machine.outOfReach

def execute (machine : Machine) (roll : UInt8) :
    Instruction → Option (Except Fault Machine)
  | .bare op => return machine.executeBare op
  | .address op target => executeAddress machine target op
  | .byte op x value => do return .ok (← executeByte machine roll x value op)
  | .pair op x y => do return .ok (← executePair machine op x y)
  | .sprite x y rows => executeSprite machine x y rows
  | .register op x => executeRegister machine x op

/-! ### Operations of a host -/

def perform (machine : Machine) (dice : Dice) (instruction : Instruction) :
    Option (Outcome Unit) := do
  let counted := machine.countCycle
  match ← execute counted dice.roll instruction with
  | .error fault =>
      return { result := .error fault
               machine := counted
               dice := dice.after instruction
               trace := counted.traceLines }
  | .ok after =>
      return { result := .ok ()
               machine := after
               dice := dice.after instruction
               trace := counted.traceLines }

/-- The fetch itself is checked and refuses an address outside memory. -/
def tick (machine : Machine) (dice : Dice) : Option (Outcome Unit) :=
  if machine.isIdle then return machine.start dice
  else
    match machine.memory.word? machine.pc.toNat with
    | none =>
        return { result := .error (.outOfBounds machine.pc.toNat machine.pc)
                 machine, dice, trace := [] }
    | some word => do
        let fetched :=
          { machine.afterFetch word with pc := ← advance machine.pc Instruction.size }
        match Instruction.ofWord? word with
        | none =>
            return { result := .error (.unknownOpcode word machine.pc)
                     machine := fetched, dice, trace := fetched.traceLines }
        | some instruction => perform fetched dice instruction

def multistep (machine : Machine) (dice : Dice) : Nat → Option (Outcome Unit)
  | 0 => return machine.start dice
  | count + 1 => do
      if machine.isAwaitingKey then return machine.start dice
      let first ← tick machine dice
      if first.failed then return first
      let rest ← multistep first.machine first.dice count
      return first.behind rest

/-- Whether the glyphs fit is checked; that the program does is known from its length. -/
def load (machine : Machine) (program : List UInt8) : Option (Reply Unit) :=
  if Region.program.capacity < program.length then
    return { result := .error (.programTooLong program.length), machine := machine }
  else
    let cleared := { machine.reset with memory := .zeroed }
    match cleared.memory.loadGlyphs? machine.font.toNat with
    | none => return { result := .error (.fontTooHigh machine.font), machine := cleared }
    | some glyphs => do
        let memory ← glyphs.write? Region.program.start program
        return { result := .ok (), machine := { cleared with memory := memory } }

/-- The other operations access nothing without a check of their own. -/
def apply (operation : Operation) (machine : Machine) (dice : Dice) :
    Option (Outcome Answer) :=
  match operation with
  | .load program => do
      return (Outcome.ofReply dice (← load machine program)).map fun _ => .done
  | .tick => do return (← tick machine dice).map fun _ => .done
  | .multistep count => do return (← multistep machine dice count).map fun _ => .done
  | operation => return operation.apply machine dice

end Chip8.Strict
