import Chip8.Operation
import Chip8.Proofs.Execution

/-!
What the host has set and an instruction looks at. Each of the six choices of a dialect is
consulted by the instructions of one family; beyond those that it consults, an instruction looks
neither at the settings nor at the disassembler. A request of the host looks at neither.
-/

namespace Chip8

/-- One of the six points in which dialects differ. -/
inductive Trait
  | shiftsSecond
  | keepsIndex
  | wrapsSprites
  | clearsFlag
  | jumpsByAddress
  | flagLast
  deriving DecidableEq, Repr

namespace Dialect

def choice (dialect : Dialect) : Trait → Bool
  | .shiftsSecond => dialect.shiftsSecond
  | .keepsIndex => dialect.keepsIndex
  | .wrapsSprites => dialect.wrapsSprites
  | .clearsFlag => dialect.clearsFlag
  | .jumpsByAddress => dialect.jumpsByAddress
  | .flagLast => dialect.flagLast

def withChoice (dialect : Dialect) (trait : Trait) (chosen : Bool) : Dialect :=
  match trait with
  | .shiftsSecond => { dialect with shiftsSecond := chosen }
  | .keepsIndex => { dialect with keepsIndex := chosen }
  | .wrapsSprites => { dialect with wrapsSprites := chosen }
  | .clearsFlag => { dialect with clearsFlag := chosen }
  | .jumpsByAddress => { dialect with jumpsByAddress := chosen }
  | .flagLast => { dialect with flagLast := chosen }

theorem withChoice_choice (dialect : Dialect) (trait : Trait) :
    dialect.withChoice trait (dialect.choice trait) = dialect := by
  cases trait <;> rfl

theorem withChoice_withChoice (dialect : Dialect) (trait : Trait) (earlier chosen : Bool) :
    (dialect.withChoice trait earlier).withChoice trait chosen =
      dialect.withChoice trait chosen := by
  cases trait <;> rfl

theorem choice_withChoice (dialect : Dialect) (trait other : Trait) (chosen : Bool) :
    (dialect.withChoice trait chosen).choice other =
      if other = trait then chosen else dialect.choice other := by
  cases trait <;> cases other <;> rfl

end Dialect

def PairOp.consults : PairOp → Trait → Bool
  | .or, .clearsFlag => true
  | .and, .clearsFlag => true
  | .xor, .clearsFlag => true
  | .subtract, .flagLast => true
  | .subtractFrom, .flagLast => true
  | .shiftRight, .flagLast => true
  | .shiftRight, .shiftsSecond => true
  | .shiftLeft, .flagLast => true
  | .shiftLeft, .shiftsSecond => true
  | _, _ => false

/-- Whether the effect of an instruction may depend on a choice. -/
def Instruction.consults : Instruction → Trait → Bool
  | .address .jumpIndexed _, .jumpsByAddress => true
  | .pair op _ _, trait => op.consults trait
  | .sprite _ _ _, .wrapsSprites => true
  | .register .store _, .keepsIndex => true
  | .register .load _, .keepsIndex => true
  | _, _ => false

/-! ### One instruction -/

namespace Registers

theorem combine_congr {dialect other : Dialect} (op : PairOp)
    (same : ∀ trait, op.consults trait = true → other.choice trait = dialect.choice trait)
    (registers : Registers) (x y : Nat) :
    registers.combine other op x y = registers.combine dialect op x y := by
  cases op with
  | skipEqual => rfl
  | skipUnequal => rfl
  | load => rfl
  | add => rfl
  | or | and | xor =>
      have clears : other.clearsFlag = dialect.clearsFlag := same .clearsFlag rfl
      simp only [combine, clears]
  | subtract | subtractFrom =>
      have last : other.flagLast = dialect.flagLast := same .flagLast rfl
      simp only [combine, last]
  | shiftRight | shiftLeft =>
      have last : other.flagLast = dialect.flagLast := same .flagLast rfl
      have shifts : other.shiftsSecond = dialect.shiftsSecond := same .shiftsSecond rfl
      have source : shiftSource other x y = shiftSource dialect x y := by
        rw [shiftSource, shiftSource, shifts]
      rw [combine, combine, source, last]

end Registers

/-- Whether the effect of an instruction may depend on a key. -/
def Instruction.consultsKeys : Instruction → Bool
  | .register .skipHeld _ => true
  | .register .skipReleased _ => true
  | _ => false

/-- What the host has in hand and no instruction writes. -/
structure Surroundings where
  settings : Settings
  keypad : Keypad
  disassembler : Disassembler

namespace Machine

def surroundings (machine : Machine) : Surroundings :=
  { settings := machine.settings
    keypad := machine.keypad
    disassembler := machine.disassembler }

def amid (machine : Machine) (surroundings : Surroundings) : Machine :=
  { machine with
    settings := surroundings.settings
    keypad := surroundings.keypad
    disassembler := surroundings.disassembler }

def under (machine : Machine) (settings : Settings) (disassembler : Disassembler) : Machine :=
  { machine with settings, disassembler }

/-- Surroundings in which an instruction finds the same. -/
structure SameFor (instruction : Instruction) (first second : Surroundings) : Prop where
  choice : ∀ trait, instruction.consults trait = true →
    second.settings.dialect.choice trait = first.settings.dialect.choice trait
  keypad : instruction.consultsKeys = true → second.keypad = first.keypad

section

variable (machine : Machine) (other : Surroundings)

theorem skipIf_amid (condition : Bool) :
    (machine.amid other).skipIf condition = (machine.skipIf condition).amid other := by
  rw [skipIf_eq, skipIf_eq]
  rfl

theorem passBlock_amid {other : Surroundings}
    (same : other.settings.dialect.keepsIndex = machine.settings.dialect.keepsIndex)
    (length : Nat) :
    (machine.amid other).passBlock length = (machine.passBlock length).amid other := by
  rw [passBlock_eq, passBlock_eq]
  simp only [amid, same]

theorem withBlock_amid (length : Nat) (result : Machine) :
    (machine.amid other).withBlock length (result.amid other) =
      (machine.withBlock length result).map (·.amid other) := by
  have sameReach : (machine.amid other).Reaches length ↔ machine.Reaches length := Iff.rfl
  unfold withBlock
  by_cases inside : machine.Reaches length
  · rw [if_pos inside, if_pos (sameReach.mpr inside)]
    rfl
  · rw [if_neg inside, if_neg (mt sameReach.mp inside)]
    rfl

private theorem executeBare_amid (op : BareOp) :
    (machine.amid other).executeBare op = (machine.executeBare op).map (·.amid other) := by
  cases op with
  | clearScreen => rfl
  | ret =>
      have sameStack : (machine.amid other).stack = machine.stack := rfl
      rw [executeBare, executeBare, sameStack]
      cases machine.stack <;> rfl

private theorem executeAddress_amid {other : Surroundings} (target : UInt16) {op : AddressOp}
    (same : op = .jumpIndexed →
      other.settings.dialect.jumpsByAddress = machine.settings.dialect.jumpsByAddress) :
    (machine.amid other).executeAddress target op =
      (machine.executeAddress target op).map (·.amid other) := by
  cases op with
  | jump => rfl
  | loadIndex => rfl
  | call =>
      have sameStack : (machine.amid other).stack = machine.stack := rfl
      rw [executeAddress, executeAddress, sameStack]
      split <;> rfl
  | jumpIndexed =>
      have jumps : (machine.amid other).settings.dialect.jumpsByAddress =
          machine.settings.dialect.jumpsByAddress := same rfl
      rw [executeAddress, executeAddress, jumps]
      rfl

private theorem executePair_amid {other : Surroundings} {op : PairOp} (x y : UInt64)
    (same : ∀ trait, op.consults trait = true →
      other.settings.dialect.choice trait = machine.settings.dialect.choice trait) :
    (machine.amid other).executePair op x y = (machine.executePair op x y).amid other := by
  have combined : (machine.amid other).registers.combine
        (machine.amid other).settings.dialect op x.toNat y.toNat =
      machine.registers.combine machine.settings.dialect op x.toNat y.toNat :=
    Registers.combine_congr op same machine.registers x.toNat y.toNat
  rw [executePair, executePair, combined, skipIf_eq, skipIf_eq]
  rfl

private theorem executeRegister_amid {other : Surroundings} (x : UInt64) {op : RegisterOp}
    (same : SameFor (.register op x) machine.surroundings other) :
    (machine.amid other).executeRegister x op =
      (machine.executeRegister x op).map (·.amid other) := by
  cases op with
  | skipHeld | skipReleased =>
      have held : (machine.amid other).keypad = machine.keypad := same.keypad rfl
      rw [executeRegister, executeRegister, held, skipIf_amid]
      rfl
  | decimal =>
      exact withBlock_amid machine other 3 (machine.storeBlock (decimalDigits (machine.read x)))
  | store =>
      let length := x.toNat + 1
      let stored := machine.storeBlock (machine.registers.take length)
      have blocked := withBlock_amid machine other length (stored.passBlock length)
      rw [← passBlock_amid stored (same.choice .keepsIndex rfl)] at blocked
      exact blocked
  | load =>
      let length := x.toNat + 1
      let loaded : Machine :=
        { machine with registers := machine.registers.writeFrom 0 (machine.block length) }
      have blocked := withBlock_amid machine other length (loaded.passBlock length)
      rw [← passBlock_amid loaded (same.choice .keepsIndex rfl)] at blocked
      exact blocked
  | _ => rfl

/-- An instruction does the same in all surroundings in which it finds the same. -/
theorem execute_amid {other : Surroundings} (roll : UInt8) {instruction : Instruction}
    (same : SameFor instruction machine.surroundings other) :
    (machine.amid other).execute roll instruction =
      (machine.execute roll instruction).map (·.amid other) := by
  cases instruction with
  | bare op => exact executeBare_amid machine other op
  | address op target =>
      refine executeAddress_amid machine target ?_
      rintro rfl
      exact same.choice .jumpsByAddress rfl
  | byte op x value =>
      cases op with
      | skipEqual => exact congrArg Except.ok (skipIf_amid machine other _)
      | skipUnequal => exact congrArg Except.ok (skipIf_amid machine other _)
      | load => rfl
      | add => rfl
      | random => rfl
  | pair op x y => exact congrArg Except.ok (executePair_amid machine x y same.choice)
  | sprite x y rows =>
      have wraps : (machine.amid other).settings.dialect.wrapsSprites =
          machine.settings.dialect.wrapsSprites := same.choice .wrapsSprites rfl
      rw [execute, execute, executeSprite_eq, executeSprite_eq, wraps, ← withBlock_amid]
      rfl
  | register op x => exact executeRegister_amid machine x same

private theorem map_execute_congr {change another : Machine → Machine} (roll : UInt8)
    (instruction : Instruction)
    (same : ∀ after : Machine, after.surroundings = machine.surroundings →
      change after = another after) :
    (machine.execute roll instruction).map change =
      (machine.execute roll instruction).map another := by
  cases ran : machine.execute roll instruction with
  | error fault => rfl
  | ok after =>
      have kept := (effect_of_execute ran).setting
      have surroundings : after.surroundings = machine.surroundings :=
        congrArg (fun setting : Setting =>
          (⟨setting.settings, setting.keypad, setting.disassembler⟩ : Surroundings)) kept
      exact congrArg Except.ok (same after surroundings)

theorem execute_under (disassembler : Disassembler) {settings : Settings} (roll : UInt8)
    {instruction : Instruction}
    (same : ∀ trait, instruction.consults trait = true →
      settings.dialect.choice trait = machine.settings.dialect.choice trait) :
    (machine.under settings disassembler).execute roll instruction =
      (machine.execute roll instruction).map (·.under settings disassembler) := by
  let other : Surroundings := { machine.surroundings with settings, disassembler }
  have alike : SameFor instruction machine.surroundings other := ⟨same, fun _ => rfl⟩
  refine (execute_amid machine roll alike).trans (map_execute_congr machine roll instruction ?_)
  intro after kept
  have keypad : after.keypad = machine.keypad := congrArg Surroundings.keypad kept
  have unchanged : other = ⟨settings, after.keypad, disassembler⟩ := by
    rw [keypad]
    rfl
  rw [unchanged]
  rfl

theorem execute_withKeys (keypad : Keypad) (roll : UInt8) {instruction : Instruction}
    (unread : instruction.consultsKeys = false) :
    ({ machine with keypad } : Machine).execute roll instruction =
      (machine.execute roll instruction).map fun after => { after with keypad } := by
  let other : Surroundings := { machine.surroundings with keypad }
  have alike : SameFor instruction machine.surroundings other :=
    ⟨fun _ _ => rfl, fun consulted => absurd consulted (by simp [unread])⟩
  refine (execute_amid machine roll alike).trans (map_execute_congr machine roll instruction ?_)
  intro after kept
  have settings : after.settings = machine.settings := congrArg Surroundings.settings kept
  have disassembler : after.disassembler = machine.disassembler :=
    congrArg Surroundings.disassembler kept
  have unchanged : other = ⟨after.settings, keypad, after.disassembler⟩ := by
    rw [settings, disassembler]
    rfl
  rw [unchanged]
  rfl

end

end Machine

/-! ### One request -/

def Reply.under {α : Type} (reply : Reply α) (settings : Settings)
    (disassembler : Disassembler) : Reply α :=
  { reply with machine := reply.machine.under settings disassembler }

namespace Machine

/-- A request that neither looks at the settings or the disassembler nor changes them. -/
def Indifferent {α : Type} (request : Machine → Reply α) : Prop :=
  ∀ machine settings disassembler,
    request (machine.under settings disassembler) = (request machine).under settings disassembler

theorem Indifferent.kept {α : Type} {request : Machine → Reply α}
    (indifferent : Indifferent request) (machine : Machine) :
    (request machine).machine.settings = machine.settings ∧
      (request machine).machine.disassembler = machine.disassembler := by
  have same : (request machine).machine =
      (request machine).machine.under machine.settings machine.disassembler :=
    congrArg Reply.machine (indifferent machine machine.settings machine.disassembler)
  rw [same]
  exact ⟨rfl, rfl⟩

theorem load_indifferent (program : List UInt8) :
    Indifferent fun machine => machine.load program := by
  intro machine settings disassembler
  by_cases long : Region.program.capacity < program.length
  · simp only [load, if_pos long]
    rfl
  · simp only [load, if_neg long]
    have sameFont : (machine.under settings disassembler).font = machine.font := rfl
    rw [sameFont]
    cases Memory.zeroed.loadGlyphs? machine.font.toNat with
    | none => rfl
    | some glyphs =>
        dsimp only
        cases glyphs.loadRegion? .program program with
        | none => rfl
        | some memory => rfl

theorem setRegister_indifferent (register : Nat) (value : UInt8) :
    Indifferent fun machine => machine.setRegister register value := by
  intro machine settings disassembler
  simp only [setRegister]
  split <;> rfl

theorem changeKey_indifferent (key : Nat) (pressed : Bool) :
    Indifferent fun machine => machine.changeKey key pressed := by
  intro machine settings disassembler
  by_cases present : key < Keypad.count
  · simp only [changeKey, if_pos present]
    have sameState : (machine.under settings disassembler).state = machine.state := rfl
    rw [sameState]
    cases pressed with
    | false => rfl
    | true =>
        cases machine.state with
        | running => rfl
        | awaitingKey register =>
            simp only [setRegister]
            by_cases existing : register.toNat < Registers.count
            · simp only [if_pos existing]
              rfl
            · simp only [if_neg existing]
              rfl
  · simp only [changeKey, if_neg present]
    rfl

end Machine

end Chip8
