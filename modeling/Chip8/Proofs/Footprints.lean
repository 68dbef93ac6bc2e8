import Chip8.Proofs.Decoding
import Chip8.Proofs.Ticking

/-!
What an executed instruction may change. Every part of a machine has a short list of words that
change it, and after any other word it is what it was before. The words are told by their digits:
the first names the group, the second the register that takes a result.
-/

namespace Chip8

/-! ### Words by what they change -/

namespace Word

/-- Words of the operations on one register: the first digit, and the last two. -/
def OnRegister (word : UInt16) (first last : Nat) : Prop :=
  word.toNat / 4096 = first ∧ word.toNat % 256 = last

def Paints (word : UInt16) : Prop := word.toNat = 0x00e0 ∨ word.toNat / 4096 = 0xd

/-- A sprite without rows paints nothing. -/
def Shows (word : UInt16) : Prop :=
  word.toNat = 0x00e0 ∨ word.toNat / 4096 = 0xd ∧ 0 < word.toNat % 16

def Jumps (word : UInt16) : Prop :=
  word.toNat / 4096 ∈ [0x1, 0x2, 0xb] ∨ word.toNat = 0x00ee

def MovesIndex (dialect : Dialect) (word : UInt16) : Prop :=
  word.toNat / 4096 = 0xa ∨ OnRegister word 0xf 0x1e ∨ OnRegister word 0xf 0x29 ∨
    dialect.keepsIndex = false ∧ (OnRegister word 0xf 0x55 ∨ OnRegister word 0xf 0x65)

/-- The result of a word goes to the register of its second digit, or to all up to that. -/
def ResultIn (word : UInt16) (register : Nat) : Prop :=
  register = word.toNat / 256 % 16 ∧
      (word.toNat / 4096 ∈ [0x6, 0x7, 0x8, 0xc] ∨ OnRegister word 0xf 0x07) ∨
    register ≤ word.toNat / 256 % 16 ∧ OnRegister word 0xf 0x65

/-- Words that write the flag register, whatever register takes their result. -/
def TellsFlag (dialect : Dialect) (word : UInt16) : Prop :=
  word.toNat / 4096 = 0x8 ∧
      (dialect.clearsFlag = true ∧ word.toNat % 16 ∈ [0x1, 0x2, 0x3] ∨
        word.toNat % 16 ∈ [0x4, 0x5, 0x6, 0x7, 0xe]) ∨
    word.toNat / 4096 = 0xd ∨ OnRegister word 0xf 0x1e

/-- The addresses that a word stores to, from the index register on. -/
def StoresAt (index : Nat) (word : UInt16) (address : Nat) : Prop :=
  OnRegister word 0xf 0x33 ∧ index ≤ address ∧ address < index + 3 ∨
    OnRegister word 0xf 0x55 ∧ index ≤ address ∧ address ≤ index + word.toNat / 256 % 16

end Word

namespace Machine

def SkipHolds (machine : Machine) (word : UInt16) : Prop :=
  let first := machine.registers.read (word.toNat / 256 % 16)
  let second := machine.registers.read (word.toNat / 16 % 16)
  let held := machine.keypad.isHeld first.toNat
  word.toNat / 4096 = 0x3 ∧ first.toNat = word.toNat % 256 ∨
    word.toNat / 4096 = 0x4 ∧ first.toNat ≠ word.toNat % 256 ∨
    word.toNat / 4096 = 0x5 ∧ word.toNat % 16 = 0x0 ∧ first = second ∨
    word.toNat / 4096 = 0x9 ∧ word.toNat % 16 = 0x0 ∧ first ≠ second ∨
    Word.OnRegister word 0xe 0x9e ∧ held = true ∨
    Word.OnRegister word 0xe 0xa1 ∧ held = false

/-- `after` is what the execution of `word` may leave of `machine`. A field that is not given is
one that the word leaves alone. -/
structure Touches (machine : Machine) (word : UInt16) (after : Machine) : Prop where
  settings : after.settings = machine.settings := by rfl
  font : after.font = machine.font := by rfl
  keypad : after.keypad = machine.keypad := by rfl
  disassembler : after.disassembler = machine.disassembler := by rfl
  cycle : after.cycle = machine.cycle + 1 := by rfl
  fetched : after.fetched = { address := machine.pc, word := word } := by rfl
  drawn : after.drawn = true → Word.Shows word := by
    exact fun drawn => absurd drawn Bool.false_ne_true
  screen : after.screen = machine.screen ∨ Word.Paints word := by exact .inl rfl
  stack : after.stack = machine.stack ∨
    word.toNat / 4096 = 0x2 ∧ after.stack = (machine.pc + 2) :: machine.stack ∨
    word.toNat = 0x00ee ∧ machine.stack = after.pc :: after.stack := by exact .inl rfl
  state : after.state = machine.state ∨ Word.OnRegister word 0xf 0x0a := by exact .inl rfl
  delay : after.delay = machine.delay ∨ Word.OnRegister word 0xf 0x15 := by exact .inl rfl
  sound : after.sound = machine.sound ∨ Word.OnRegister word 0xf 0x18 := by exact .inl rfl
  index : after.index = machine.index ∨
    Word.MovesIndex machine.settings.dialect word := by exact .inl rfl
  memory : ∀ address, after.memory.byte address = machine.memory.byte address ∨
    Word.StoresAt machine.index.toNat word address := by exact fun _ => .inl rfl
  registers : ∀ register,
    after.registers.read register = machine.registers.read register ∨
      Word.ResultIn word register ∨
      register = Registers.flag ∧ Word.TellsFlag machine.settings.dialect word := by
        exact fun _ => .inl rfl
  pc : after.pc = machine.pc + 2 ∨ Word.Jumps word ∨
    machine.SkipHolds word ∧ after.pc = machine.pc + 4 := by exact .inl rfl

end Machine

/-! ### Stores and register writes -/

theorem Memory.byte_store_same_or (memory : Memory) (address other : Nat) (values : List UInt8) :
    (memory.store address values).byte other = memory.byte other ∨
      address ≤ other ∧ other < address + values.length := by
  rw [byte_store]
  split
  · rename_i inside
    exact .inr ⟨inside.1, inside.2.1⟩
  · exact .inl rfl

namespace Registers

variable (registers : Registers)

theorem read_write_same_or (register other : Nat) (value : UInt8) :
    (registers.write register value).read other = registers.read other ∨ other = register := by
  rw [read_write]
  split
  · rename_i written
    exact .inr written.1
  · exact .inl rfl

theorem read_writeFlag_same_or (raised : Bool) (other : Nat) :
    (registers.writeFlag raised).read other = registers.read other ∨ other = flag :=
  registers.read_write_same_or flag other (bit raised)

theorem read_write_write_same_or (first second other : Nat) (value last : UInt8) :
    ((registers.write first value).write second last).read other = registers.read other ∨
      other = first ∨ other = second := by
  rcases (registers.write first value).read_write_same_or second other last with same | written
  · rw [same]
    rcases registers.read_write_same_or first other value with same | written
    · exact .inl same
    · exact .inr (.inl written)
  · exact .inr (.inr written)

private theorem read_writeFlagged_same_or (flagLast : Bool) (x : Nat) (raised : Bool)
    (result : Registers → UInt8) (other : Nat) :
    (registers.writeFlagged flagLast x raised result).read other = registers.read other ∨
      other = x ∨ other = flag := by
  unfold writeFlagged
  split
  · exact registers.read_write_write_same_or x flag other _ _
  · exact (registers.read_write_write_same_or flag x other _ _).imp_right Or.symm

private theorem read_writeBitwise_same_or (clearsFlag : Bool) (x : Nat) (result : UInt8)
    (other : Nat) :
    (registers.writeBitwise clearsFlag x result).read other = registers.read other ∨
      other = x ∨ other = flag ∧ clearsFlag = true := by
  unfold writeBitwise
  cases clearsFlag with
  | false => exact (registers.read_write_same_or x other result).imp_right .inl
  | true =>
      rcases registers.read_write_write_same_or x flag other result 0 with same | first | second
      · exact .inl same
      · exact .inr (.inl first)
      · exact .inr (.inr ⟨second, rfl⟩)

end Registers

namespace Machine

variable {machine after : Machine} {word : UInt16} {roll : UInt8} {dice : Dice}

private theorem read_combine_same_or {op : PairOp} {x y : UInt64}
    (decoded : Instruction.ofWord? word = some (.pair op x y)) (dialect : Dialect)
    (registers : Registers) (register : Nat) :
    (registers.combine dialect op x.toNat y.toNat).read register = registers.read register ∨
      Word.ResultIn word register ∨
      register = Registers.flag ∧ Word.TellsFlag dialect word := by
  cases op with
  | skipEqual => exact .inl rfl
  | skipUnequal => exact .inl rfl
  | load =>
      obtain ⟨first, -, named, -⟩ := (Instruction.ofWord?_eq_pair_iff 0x8 0x0 rfl).mp decoded
      refine (registers.read_write_same_or x.toNat register _).imp_right fun written => .inl ?_
      exact .inl ⟨written.trans named, .inl (by simp [first])⟩
  | or | and | xor =>
      obtain ⟨first, last, named, -⟩ := (Instruction.ofWord?_eq_pair_iff 0x8 _ rfl).mp decoded
      rcases registers.read_writeBitwise_same_or dialect.clearsFlag x.toNat _ register with
        same | result | ⟨written, clears⟩
      · exact .inl same
      · exact .inr (.inl (.inl ⟨result.trans named, .inl (by simp [first])⟩))
      · exact .inr (.inr ⟨written, .inl ⟨first, .inl ⟨clears, by simp [last]⟩⟩⟩)
  | add =>
      obtain ⟨first, last, named, -⟩ := (Instruction.ofWord?_eq_pair_iff 0x8 _ rfl).mp decoded
      rcases registers.read_write_write_same_or x.toNat Registers.flag register _ _ with
        same | result | written
      · exact .inl same
      · exact .inr (.inl (.inl ⟨result.trans named, .inl (by simp [first])⟩))
      · exact .inr (.inr ⟨written, .inl ⟨first, .inr (by simp [last])⟩⟩)
  | subtract | shiftRight | subtractFrom | shiftLeft =>
      obtain ⟨first, last, named, -⟩ := (Instruction.ofWord?_eq_pair_iff 0x8 _ rfl).mp decoded
      rcases registers.read_writeFlagged_same_or dialect.flagLast x.toNat _ _ register with
        same | result | written
      · exact .inl same
      · exact .inr (.inl (.inl ⟨result.trans named, .inl (by simp [first])⟩))
      · exact .inr (.inr ⟨written, .inl ⟨first, .inr (by simp [last])⟩⟩)

/-! ### One instruction -/

private theorem touches_skipIf {registers : Registers} (condition : Bool)
    (written : ∀ register, registers.read register = machine.registers.read register ∨
      Word.ResultIn word register ∨
      register = Registers.flag ∧ Word.TellsFlag machine.settings.dialect word)
    (holds : condition = true → machine.SkipHolds word) :
    Touches machine word
      ({ machine.poised word with registers := registers }.skipIf condition) := by
  cases condition with
  | false => exact { registers := written }
  | true =>
      have further : machine.pc + 2 + 2 = machine.pc + 4 := by
        rw [UInt16.add_assoc]
        rfl
      exact { registers := written, pc := .inr (.inr ⟨holds rfl, further⟩) }

private theorem touches_write {x : UInt64} (named : x.toNat = word.toNat / 256 % 16)
    (spelled : word.toNat / 4096 ∈ [0x6, 0x7, 0x8, 0xc] ∨ Word.OnRegister word 0xf 0x07)
    (value : UInt8) : Touches machine word ((machine.poised word).write x value) :=
  { registers := fun register =>
      (machine.registers.read_write_same_or x.toNat register value).imp_right
        fun written => .inl (.inl ⟨written.trans named, spelled⟩) }

private theorem touches_block {memory : Memory} {registers : Registers} (length : Nat)
    (named : Word.OnRegister word 0xf 0x55 ∨ Word.OnRegister word 0xf 0x65)
    (stored : ∀ address, memory.byte address = machine.memory.byte address ∨
      Word.StoresAt machine.index.toNat word address)
    (loaded : ∀ register, registers.read register = machine.registers.read register ∨
      Word.ResultIn word register) :
    Touches machine word
      ({ machine.poised word with memory := memory, registers := registers }.passBlock length) := by
  have written (register : Nat) : registers.read register = machine.registers.read register ∨
      Word.ResultIn word register ∨
      register = Registers.flag ∧ Word.TellsFlag machine.settings.dialect word :=
    (loaded register).imp_right .inl
  unfold passBlock
  split
  · exact { memory := stored, registers := written }
  · rename_i moves
    have keeps : machine.settings.dialect.keepsIndex = false := Bool.eq_false_iff.mpr moves
    exact
      { index := .inr (.inr (.inr (.inr ⟨keeps, named⟩)))
        memory := stored
        registers := written }

private theorem touches_bare {op : BareOp}
    (decoded : Instruction.ofWord? word = some (.bare op))
    (ran : (machine.poised word).executeBare op = .ok after) : Touches machine word after := by
  cases op with
  | clearScreen =>
      have named : word.toNat = 0x00e0 :=
        (Instruction.ofWord?_eq_bare_iff 0xe 0x0 (by decide) (by decide) rfl).mp decoded
      cases ran
      exact { drawn := fun _ => .inl named, screen := .inr (.inl named) }
  | ret =>
      have named : word.toNat = 0x00ee := Instruction.ofWord?_eq_ret_iff.mp decoded
      cases stackAt : (machine.poised word).stack with
      | nil => simp [executeBare, stackAt] at ran
      | cons address rest =>
          simp only [executeBare, stackAt, Except.ok.injEq] at ran
          subst ran
          exact { stack := .inr (.inr ⟨named, stackAt⟩), pc := .inr (.inl (.inr named)) }

private theorem touches_address {op : AddressOp} {target : UInt16}
    (decoded : Instruction.ofWord? word = some (.address op target))
    (ran : (machine.poised word).executeAddress target op = .ok after) :
    Touches machine word after := by
  cases op with
  | jump =>
      obtain ⟨first, -⟩ := (Instruction.ofWord?_eq_address_iff 0x1 rfl).mp decoded
      cases ran
      exact { pc := .inr (.inl (.inl (by simp [first]))) }
  | call =>
      obtain ⟨first, -⟩ := Instruction.ofWord?_eq_call_iff.mp decoded
      by_cases room : (machine.poised word).stack.length < stackDepth
      · simp only [executeAddress, if_pos room, Except.ok.injEq] at ran
        subst ran
        exact
          { stack := .inr (.inl ⟨first, rfl⟩)
            pc := .inr (.inl (.inl (by simp [first]))) }
      · simp [executeAddress, room] at ran
  | loadIndex =>
      obtain ⟨first, -⟩ := (Instruction.ofWord?_eq_address_iff 0xa rfl).mp decoded
      cases ran
      exact { index := .inr (.inl first) }
  | jumpIndexed =>
      obtain ⟨first, -⟩ := (Instruction.ofWord?_eq_address_iff 0xb rfl).mp decoded
      cases ran
      exact { pc := .inr (.inl (.inl (by simp [first]))) }

private theorem touches_byte {op : ByteOp} {x : UInt64} {value : UInt8}
    (decoded : Instruction.ofWord? word = some (.byte op x value)) :
    Touches machine word ((machine.poised word).executeByte roll x value op) := by
  cases op with
  | skipEqual =>
      obtain ⟨first, named, low⟩ := (Instruction.ofWord?_eq_byte_iff 0x3 rfl).mp decoded
      refine touches_skipIf _ (fun _ => .inl rfl) fun equal => .inl ⟨first, ?_⟩
      rw [← named, ← low]
      exact congrArg UInt8.toNat (eq_of_beq equal)
  | skipUnequal =>
      obtain ⟨first, named, low⟩ := (Instruction.ofWord?_eq_byte_iff 0x4 rfl).mp decoded
      refine touches_skipIf _ (fun _ => .inl rfl) fun unequal => .inr (.inl ⟨first, ?_⟩)
      rw [← named, ← low]
      exact fun same => bne_iff_ne.mp unequal (UInt8.toNat.inj same)
  | load =>
      obtain ⟨first, named, -⟩ := (Instruction.ofWord?_eq_byte_iff 0x6 rfl).mp decoded
      exact touches_write named (.inl (by simp [first])) _
  | add =>
      obtain ⟨first, named, -⟩ := (Instruction.ofWord?_eq_byte_iff 0x7 rfl).mp decoded
      exact touches_write named (.inl (by simp [first])) _
  | random =>
      obtain ⟨first, named, -⟩ := (Instruction.ofWord?_eq_byte_iff 0xc rfl).mp decoded
      exact touches_write named (.inl (by simp [first])) _

private theorem touches_pair {op : PairOp} {x y : UInt64}
    (decoded : Instruction.ofWord? word = some (.pair op x y)) :
    Touches machine word ((machine.poised word).executePair op x y) := by
  refine touches_skipIf _ (read_combine_same_or decoded _ machine.registers) fun skips => ?_
  cases op with
  | skipEqual =>
      obtain ⟨first, last, xNamed, yNamed⟩ :=
        (Instruction.ofWord?_eq_pair_iff 0x5 0x0 rfl).mp decoded
      have equal := eq_of_beq skips
      rw [xNamed, yNamed] at equal
      exact .inr (.inr (.inl ⟨first, last, equal⟩))
  | skipUnequal =>
      obtain ⟨first, last, xNamed, yNamed⟩ :=
        (Instruction.ofWord?_eq_pair_iff 0x9 0x0 rfl).mp decoded
      have unequal := bne_iff_ne.mp skips
      rw [xNamed, yNamed] at unequal
      exact .inr (.inr (.inr (.inl ⟨first, last, unequal⟩)))
  | _ => cases skips

private theorem touches_sprite {x y : UInt64} {rows : UInt8}
    (decoded : Instruction.ofWord? word = some (.sprite x y rows))
    (ran : (machine.poised word).executeSprite x y rows = .ok after) :
    Touches machine word after := by
  obtain ⟨first, -, -, low⟩ := Instruction.ofWord?_eq_sprite_iff.mp decoded
  rw [executeSprite_eq] at ran
  obtain ⟨-, rfl⟩ := withBlock_eq_ok_iff.mp ran
  exact
    { drawn := fun shown => by
        have some_rows : 0 < rows := of_decide_eq_true shown
        exact .inr ⟨first, low ▸ UInt8.lt_iff_toNat_lt.mp some_rows⟩
      screen := .inr (.inr first)
      registers := fun register =>
        (machine.registers.read_writeFlag_same_or _ register).imp_right
          fun written => .inr ⟨written, .inr (.inl first)⟩ }

private theorem onRegister_of_decoded {op : RegisterOp} {x : UInt64} (first third fourth : Nat)
    (decoded : Instruction.ofWord? word = some (.register op x)) (thirdDigit : third < 16)
    (fourthDigit : fourth < 16)
    (shape : Opcode.pattern (.register op) = .ofRegister first third fourth) :
    Word.OnRegister word first (16 * third + fourth) ∧ x.toNat = word.toNat / 256 % 16 := by
  obtain ⟨firstAt, lastAt, named⟩ :=
    (Instruction.ofWord?_eq_register_iff first third fourth thirdDigit fourthDigit shape).mp decoded
  exact ⟨⟨firstAt, lastAt⟩, named⟩

private theorem touches_register {op : RegisterOp} {x : UInt64}
    (decoded : Instruction.ofWord? word = some (.register op x))
    (ran : (machine.poised word).executeRegister x op = .ok after) :
    Touches machine word after := by
  have spelled (first third fourth : Nat) := onRegister_of_decoded first third fourth decoded
  cases op with
  | skipHeld =>
      obtain ⟨named, x⟩ := spelled 0xe 0x9 0xe (by decide) (by decide) rfl
      cases ran
      refine touches_skipIf _ (fun _ => .inl rfl) fun held => ?_
      exact .inr (.inr (.inr (.inr (.inl ⟨named, x ▸ held⟩))))
  | skipReleased =>
      obtain ⟨named, x⟩ := spelled 0xe 0xa 0x1 (by decide) (by decide) rfl
      cases ran
      refine touches_skipIf _ (fun _ => .inl rfl) fun released => ?_
      have free := (Bool.not_eq_true' _).mp released
      exact .inr (.inr (.inr (.inr (.inr ⟨named, x ▸ free⟩))))
  | readDelay =>
      obtain ⟨named, x⟩ := spelled 0xf 0x0 0x7 (by decide) (by decide) rfl
      cases ran
      exact touches_write x (.inr named) _
  | awaitKey =>
      obtain ⟨named, -⟩ := spelled 0xf 0x0 0xa (by decide) (by decide) rfl
      cases ran
      exact { state := .inr named }
  | setDelay =>
      obtain ⟨named, -⟩ := spelled 0xf 0x1 0x5 (by decide) (by decide) rfl
      cases ran
      exact { delay := .inr named }
  | setSound =>
      obtain ⟨named, -⟩ := spelled 0xf 0x1 0x8 (by decide) (by decide) rfl
      cases ran
      exact { sound := .inr named }
  | addIndex =>
      obtain ⟨named, -⟩ := spelled 0xf 0x1 0xe (by decide) (by decide) rfl
      cases ran
      exact
        { index := .inr (.inr (.inl named))
          registers := fun register =>
            (machine.registers.read_writeFlag_same_or _ register).imp_right
              fun written => .inr ⟨written, .inr (.inr named)⟩ }
  | glyph =>
      obtain ⟨named, -⟩ := spelled 0xf 0x2 0x9 (by decide) (by decide) rfl
      cases ran
      exact { index := .inr (.inr (.inr (.inl named))) }
  | decimal =>
      obtain ⟨named, -⟩ := spelled 0xf 0x3 0x3 (by decide) (by decide) rfl
      obtain ⟨-, rfl⟩ := withBlock_eq_ok_iff.mp ran
      exact
        { memory := fun address =>
            (machine.memory.byte_store_same_or _ address _).imp_right
              fun inside => .inl ⟨named, inside⟩ }
  | store =>
      obtain ⟨named, x⟩ := spelled 0xf 0x5 0x5 (by decide) (by decide) rfl
      obtain ⟨-, rfl⟩ := withBlock_eq_ok_iff.mp ran
      refine touches_block _ (.inl named) (fun address => ?_) fun _ => .inl rfl
      refine (machine.memory.byte_store_same_or machine.index.toNat address _).imp_right
        fun inside => ?_
      rw [Registers.length_take] at inside
      exact .inr ⟨named, inside.1, by omega⟩
  | load =>
      obtain ⟨named, x⟩ := spelled 0xf 0x6 0x5 (by decide) (by decide) rfl
      obtain ⟨-, rfl⟩ := withBlock_eq_ok_iff.mp ran
      refine touches_block _ (.inr named) (fun _ => .inl rfl) fun register => ?_
      change (machine.registers.writeFrom 0 ((machine.poised word).block _)).read register = _ ∨ _
      rw [Registers.read_writeFrom, length_block]
      split
      · rename_i inside
        exact .inr (.inr ⟨by omega, named⟩)
      · exact .inl rfl

theorem touches_of_execute {instruction : Instruction}
    (decoded : Instruction.ofWord? word = some instruction)
    (ran : (machine.poised word).execute roll instruction = .ok after) :
    Touches machine word after := by
  cases instruction with
  | bare op => exact touches_bare decoded ran
  | address op target => exact touches_address decoded ran
  | byte op x value =>
      cases ran
      exact touches_byte decoded
  | pair op x y =>
      cases ran
      exact touches_pair decoded
  | sprite x y rows => exact touches_sprite decoded ran
  | register op x => exact touches_register decoded ran

private theorem drawn_of_execute {instruction : Instruction} (shows : Word.Shows word)
    (decoded : Instruction.ofWord? word = some instruction)
    (ran : (machine.poised word).execute roll instruction = .ok after) : after.drawn = true := by
  rcases shows with cleared | ⟨first, low⟩
  · have clears : Instruction.ofWord? word = some (.bare .clearScreen) :=
      (Instruction.ofWord?_eq_bare_iff 0xe 0x0 (by decide) (by decide) rfl).mpr cleared
    obtain rfl := Option.some.inj (decoded.symm.trans clears)
    cases ran
    rfl
  · obtain ⟨x, y, rows, draws⟩ := Instruction.exists_sprite_of_named first
    obtain rfl := Option.some.inj (decoded.symm.trans draws)
    obtain ⟨-, -, -, rowsNamed⟩ := Instruction.ofWord?_eq_sprite_iff.mp draws
    rw [execute, executeSprite_eq] at ran
    obtain ⟨-, rfl⟩ := withBlock_eq_ok_iff.mp ran
    exact decide_eq_true (UInt8.lt_iff_toNat_lt.mpr (rowsNamed ▸ low))

/-! ### One tick -/

theorem tick_passes_or_touches (machine : Machine) (dice : Dice) :
    (∃ pc drawn fetched cycle,
        (machine.tick dice).machine = { machine with pc, drawn, fetched, cycle }) ∨
      ∃ word, machine.Executes dice word ∧ Touches machine word (machine.tick dice).machine := by
  have ticks := ticks_tick machine dice
  generalize ticked : machine.tick dice = outcome at ticks
  cases ticks with
  | idle still => exact .inl ⟨machine.pc, machine.drawn, machine.fetched, machine.cycle, rfl⟩
  | astray outside busy =>
      exact .inl ⟨machine.pc, machine.drawn, machine.fetched, machine.cycle, rfl⟩
  | unknown word busy fetched undecoded => exact .inl ⟨_, _, _, machine.cycle, rfl⟩
  | refused word instruction fault busy fetched decoded refused =>
      exact .inl ⟨_, _, _, machine.cycle + 1, rfl⟩
  | executed word instruction after busy fetched decoded ran =>
      exact .inr ⟨word, ⟨busy, fetched, by rw [ticked]⟩, touches_of_execute decoded ran⟩

/-- An executed instruction changes only what its word says, whatever its registers are and
whatever the dialect; and the screen counts as drawn on exactly if something was painted. -/
theorem tick_touches (executes : machine.Executes dice word) :
    Touches machine word (machine.tick dice).machine ∧
      ((machine.tick dice).machine.drawn = true ↔ Word.Shows word) := by
  obtain ⟨instruction, after, decoded, ran, ticked⟩ := executes.exists_ran
  rw [ticked]
  have touches := touches_of_execute decoded ran
  exact ⟨touches, touches.drawn, fun shows => drawn_of_execute shows decoded ran⟩

def overstepping : Machine :=
  { standard with
    memory := Memory.zeroed.store 0x200 [0xff, 0x1e]
    index := 0xfff
    registers := Registers.zeroed.write Registers.flag 2 }

/-- The sum takes the place of the index register, and the flag that of the addend. -/
theorem overstepping_touches :
    let dice : Dice := { source := fun _ => 0, taken := 0 }
    let after := (overstepping.tick dice).machine
    overstepping.Executes dice 0xff1e ∧ Touches overstepping 0xff1e after ∧
      after.drawn = false ∧ after.index = 0x1001 ∧ after.registers.read Registers.flag = 1 := by
  intro dice after
  have executes : overstepping.Executes dice 0xff1e := by decide +kernel
  obtain ⟨touches, drawn⟩ := tick_touches executes
  have hidden : ¬ Word.Shows 0xff1e := by
    unfold Word.Shows
    decide
  exact ⟨executes, touches, Bool.eq_false_iff.mpr (mt drawn.mp hidden), by decide +kernel,
    by decide +kernel⟩

end Machine

end Chip8
