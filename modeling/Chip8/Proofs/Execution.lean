import Chip8.Machine.Execute

/-!
What one instruction can do, said once for all of them: when it is refused and with which
fault, what it leaves alone, and where control goes after it.
-/

namespace Chip8

/-- The number of bytes at the index register that an instruction reads or writes. -/
def Instruction.blockLength : Instruction → Nat
  | .sprite _ _ rows => rows.toNat
  | .register .decimal _ => 3
  | .register .store x => x.toNat + 1
  | .register .load x => x.toNat + 1
  | _ => 0

namespace Machine

theorem skipIf_eq (machine : Machine) (condition : Bool) :
    machine.skipIf condition =
      { machine with pc := if condition then machine.pc + 2 else machine.pc } := by
  cases condition <;> rfl

theorem passBlock_eq (machine : Machine) (length : Nat) :
    machine.passBlock length =
      { machine with
        index := if machine.settings.dialect.keepsIndex then machine.index
          else machine.index + UInt16.ofNat length } := by
  unfold passBlock
  split <;> rfl

variable {machine after : Machine} {roll : UInt8} {instruction : Instruction} {fault : Fault}

theorem reaches_zero : machine.Reaches 0 := Or.inl rfl

theorem length_block (machine : Machine) (length : Nat) :
    (machine.block length).length = length := by
  unfold block Memory.slice
  rw [List.length_map, List.length_range]

theorem getD_block (machine : Machine) {length offset : Nat} (inside : offset < length) :
    (machine.block length).getD offset 0 =
      machine.memory.byte (machine.index.toNat + offset) := by
  unfold block Memory.slice
  rw [List.getD_eq_getElem?_getD, List.getElem?_map, List.getElem?_range inside]
  rfl

theorem withBlock_eq_ok_iff {length : Nat} {result : Machine} :
    machine.withBlock length result = .ok after ↔
      machine.Reaches length ∧ result = after := by
  unfold withBlock
  split
  · rename_i inside
    simp [inside]
  · rename_i outside
    simp [outside]

theorem withBlock_eq_error_iff {length : Nat} {result : Machine} :
    machine.withBlock length result = .error fault ↔
      ¬ machine.Reaches length ∧ machine.outOfReach = fault := by
  unfold withBlock
  split
  · rename_i inside
    simp [inside]
  · rename_i outside
    simp [outside]

theorem executeSprite_eq (machine : Machine) (x y : UInt64) (rows : UInt8) :
    machine.executeSprite x y rows =
      let drawing := machine.screen.draw machine.settings.dialect.wrapsSprites
        ⟨(machine.read x).toNat, (machine.read y).toNat⟩ (machine.block rows.toNat)
      machine.withBlock rows.toNat
        { machine with
          screen := drawing.1
          registers := machine.registers.writeFlag drawing.2
          drawn := machine.drawn || 0 < rows } :=
  rfl

/-! ### Refused instructions -/

/-- Why an instruction cannot be executed. -/
inductive Obstacle (machine : Machine) : Instruction → Fault → Prop
  | underflow (empty : machine.stack = []) :
      Obstacle machine (.bare .ret)
        (.stackUnderflow machine.fetched.word machine.fetched.address)
  | overflow (target : UInt16) (full : stackDepth ≤ machine.stack.length) :
      Obstacle machine (.address .call target)
        (.stackOverflow machine.fetched.word machine.fetched.address)
  | reach (instruction : Instruction) (outside : ¬ machine.Reaches instruction.blockLength) :
      Obstacle machine instruction machine.outOfReach

private theorem obstacle_of_refused (refused : machine.execute roll instruction = .error fault) :
    Obstacle machine instruction fault := by
  cases instruction with
  | bare op =>
      cases op with
      | clearScreen => cases refused
      | ret =>
          cases stackAt : machine.stack with
          | nil =>
              simp only [execute, executeBare, stackAt, Except.error.injEq] at refused
              exact refused ▸ .underflow stackAt
          | cons address rest => simp [execute, executeBare, stackAt] at refused
  | address op target =>
      cases op with
      | call =>
          by_cases room : machine.stack.length < stackDepth
          · simp [execute, executeAddress, room] at refused
          · simp only [execute, executeAddress, if_neg room, Except.error.injEq] at refused
            exact refused ▸ .overflow target (Nat.le_of_not_lt room)
      | jump => cases refused
      | loadIndex => cases refused
      | jumpIndexed => cases refused
  | byte op x value => cases refused
  | pair op x y => cases refused
  | sprite x y rows =>
      rw [execute, executeSprite_eq] at refused
      obtain ⟨outside, rfl⟩ := withBlock_eq_error_iff.mp refused
      exact .reach _ outside
  | register op x =>
      cases op with
      | decimal =>
          obtain ⟨outside, rfl⟩ := withBlock_eq_error_iff.mp refused
          exact .reach _ outside
      | store =>
          obtain ⟨outside, rfl⟩ := withBlock_eq_error_iff.mp refused
          exact .reach _ outside
      | load =>
          obtain ⟨outside, rfl⟩ := withBlock_eq_error_iff.mp refused
          exact .reach _ outside
      | _ => cases refused

private theorem refused_of_obstacle (obstacle : Obstacle machine instruction fault) :
    machine.execute roll instruction = .error fault := by
  cases obstacle with
  | underflow empty => simp only [execute, executeBare, empty]
  | overflow target full =>
      simp only [execute, executeAddress, if_neg (Nat.not_lt_of_le full)]
  | reach instruction outside =>
      cases instruction with
      | sprite x y rows =>
          rw [execute, executeSprite_eq]
          exact withBlock_eq_error_iff.mpr ⟨outside, rfl⟩
      | register op x =>
          cases op with
          | decimal => exact withBlock_eq_error_iff.mpr ⟨outside, rfl⟩
          | store => exact withBlock_eq_error_iff.mpr ⟨outside, rfl⟩
          | load => exact withBlock_eq_error_iff.mpr ⟨outside, rfl⟩
          | _ => exact absurd reaches_zero outside
      | _ => exact absurd reaches_zero outside

theorem execute_eq_error_iff :
    machine.execute roll instruction = .error fault ↔ Obstacle machine instruction fault :=
  ⟨obstacle_of_refused, refused_of_obstacle⟩

/-! ### Executed instructions -/

/-- The parts of a machine that no instruction writes. -/
structure Setting where
  settings : Settings
  font : UInt16
  keypad : Keypad
  cycle : Nat
  fetched : Fetch
  disassembler : Disassembler

def setting (machine : Machine) : Setting :=
  { settings := machine.settings
    font := machine.font
    keypad := machine.keypad
    cycle := machine.cycle
    fetched := machine.fetched
    disassembler := machine.disassembler }

/-- Where control goes: on, past one instruction, to a target, into a subroutine or back
from one. Only the last two touch the stack. -/
inductive Flow (machine : Machine) (instruction : Instruction) (after : Machine) : Prop
  | next (stack : after.stack = machine.stack) (pc : after.pc = machine.pc)
  | skip (stack : after.stack = machine.stack) (pc : after.pc = machine.pc + 2)
  | jump (target : UInt16) (named : instruction = .address .jump target)
      (stack : after.stack = machine.stack) (pc : after.pc = target)
  | jumpIndexed (target : UInt16) (offset : UInt8)
      (named : instruction = .address .jumpIndexed target)
      (stack : after.stack = machine.stack) (pc : after.pc = target + offset.toUInt16)
  | call (target : UInt16) (named : instruction = .address .call target)
      (room : machine.stack.length < stackDepth)
      (stack : after.stack = machine.pc :: machine.stack) (pc : after.pc = target)
  | ret (named : instruction = .bare .ret) (stack : machine.stack = after.pc :: after.stack)

theorem Flow.stack_cases (flow : Flow machine instruction after) :
    after.stack = machine.stack ∨
      (∃ target, instruction = .address .call target ∧ machine.stack.length < stackDepth ∧
        after.stack = machine.pc :: machine.stack) ∨
      instruction = .bare .ret ∧ machine.stack = after.pc :: after.stack := by
  cases flow with
  | next stack pc => exact .inl stack
  | skip stack pc => exact .inl stack
  | jump target named stack pc => exact .inl stack
  | jumpIndexed target offset named stack pc => exact .inl stack
  | call target named room stack pc => exact .inr (.inl ⟨target, named, room, stack⟩)
  | ret named stack => exact .inr (.inr ⟨named, stack⟩)

structure Effect (machine : Machine) (instruction : Instruction) (after : Machine) : Prop where
  setting : after.setting = machine.setting
  flow : Flow machine instruction after
  state : after.state = machine.state ∨
    ∃ x, instruction = .register .awaitKey x ∧ after.state = .awaitingKey x

private theorem effect_skipIf (condition : Bool) (registers : Registers) :
    Effect machine instruction
      ({ machine with registers := registers }.skipIf condition) := by
  rw [skipIf_eq]
  refine ⟨rfl, ?_, .inl rfl⟩
  cases condition with
  | false => exact .next rfl rfl
  | true => exact .skip rfl rfl

private theorem effect_passBlock (memory : Memory) (registers : Registers) (length : Nat) :
    Effect machine instruction
      ({ machine with memory := memory, registers := registers }.passBlock length) := by
  rw [passBlock_eq]
  exact ⟨rfl, .next rfl rfl, .inl rfl⟩

private theorem effect_bare {op : BareOp} (ran : machine.executeBare op = .ok after) :
    Effect machine (.bare op) after := by
  cases op with
  | clearScreen =>
      cases ran
      exact ⟨rfl, .next rfl rfl, .inl rfl⟩
  | ret =>
      cases stackAt : machine.stack with
      | nil => simp [executeBare, stackAt] at ran
      | cons address rest =>
          simp only [executeBare, stackAt, Except.ok.injEq] at ran
          subst ran
          exact ⟨rfl, .ret rfl stackAt, .inl rfl⟩

private theorem effect_address {target : UInt16} {op : AddressOp}
    (ran : machine.executeAddress target op = .ok after) :
    Effect machine (.address op target) after := by
  cases op with
  | jump =>
      cases ran
      exact ⟨rfl, .jump target rfl rfl rfl, .inl rfl⟩
  | call =>
      by_cases room : machine.stack.length < stackDepth
      · simp only [executeAddress, if_pos room, Except.ok.injEq] at ran
        subst ran
        exact ⟨rfl, .call target rfl room rfl rfl, .inl rfl⟩
      · simp [executeAddress, room] at ran
  | loadIndex =>
      cases ran
      exact ⟨rfl, .next rfl rfl, .inl rfl⟩
  | jumpIndexed =>
      cases ran
      exact ⟨rfl, .jumpIndexed target _ rfl rfl rfl, .inl rfl⟩

private theorem effect_register {x : UInt64} {op : RegisterOp}
    (ran : machine.executeRegister x op = .ok after) :
    Effect machine (.register op x) after := by
  cases op with
  | skipHeld =>
      cases ran
      exact effect_skipIf _ machine.registers
  | skipReleased =>
      cases ran
      exact effect_skipIf _ machine.registers
  | awaitKey =>
      cases ran
      exact ⟨rfl, .next rfl rfl, .inr ⟨x, rfl, rfl⟩⟩
  | decimal =>
      obtain ⟨-, rfl⟩ := withBlock_eq_ok_iff.mp ran
      exact ⟨rfl, .next rfl rfl, .inl rfl⟩
  | store =>
      obtain ⟨-, rfl⟩ := withBlock_eq_ok_iff.mp ran
      exact effect_passBlock _ machine.registers _
  | load =>
      obtain ⟨-, rfl⟩ := withBlock_eq_ok_iff.mp ran
      exact effect_passBlock machine.memory _ _
  | _ =>
      cases ran
      exact ⟨rfl, .next rfl rfl, .inl rfl⟩

theorem effect_of_execute (ran : machine.execute roll instruction = .ok after) :
    Effect machine instruction after := by
  cases instruction with
  | bare op => exact effect_bare ran
  | address op target => exact effect_address ran
  | byte op x value =>
      cases ran
      cases op with
      | skipEqual => exact effect_skipIf _ machine.registers
      | skipUnequal => exact effect_skipIf _ machine.registers
      | _ => exact ⟨rfl, .next rfl rfl, .inl rfl⟩
  | pair op x y =>
      cases ran
      exact effect_skipIf _ _
  | sprite x y rows =>
      rw [execute, executeSprite_eq] at ran
      obtain ⟨-, rfl⟩ := withBlock_eq_ok_iff.mp ran
      exact ⟨rfl, .next rfl rfl, .inl rfl⟩
  | register op x => exact effect_register ran

end Machine

end Chip8
