import Chip8.Proofs.Decoding
import Chip8.Proofs.Ticking

/-!
Transfers between the registers and the memory at the index register. A block of registers that
is stored and then loaded comes back, and the digits of a byte come back as registers, whatever
has happened to the registers in between. A transfer that would leave memory moves nothing.
-/

namespace Chip8

/-- The instructions that move bytes to or from the memory at the index register. -/
inductive Transfer
  | decimal
  | store
  | load
  deriving DecidableEq, Repr

namespace Transfer

def operation : Transfer → RegisterOp
  | .decimal => .decimal
  | .store => .store
  | .load => .load

def ending : Transfer → Nat
  | .decimal => 0x33
  | .store => 0x55
  | .load => 0x65

def word (transfer : Transfer) (x : Nat) : UInt16 :=
  UInt16.ofNat (0xf000 + 0x100 * x + transfer.ending)

def length (x : Nat) : Transfer → Nat
  | .decimal => 3
  | .store => x + 1
  | .load => x + 1

private theorem toNat_word (transfer : Transfer) {x : Nat} (existing : x < 16) :
    (transfer.word x).toNat = 0xf000 + 0x100 * x + transfer.ending := by
  have low : transfer.ending < 0x100 := by cases transfer <;> decide
  rw [word, UInt16.toNat_ofNat']
  omega

theorem ofWord?_word (transfer : Transfer) {x : Nat} (existing : x < 16) :
    Instruction.ofWord? (transfer.word x) =
      some (.register transfer.operation (UInt64.ofNat x)) := by
  have named := transfer.toNat_word existing
  have spelled (third fourth : Nat) (digits : transfer.ending = 16 * third + fourth)
      (thirdDigit : third < 16) (fourthDigit : fourth < 16)
      (shape : Opcode.pattern (.register transfer.operation) =
        .ofRegister 0xf third fourth) :=
    Instruction.ofWord?_of_registerDigits 0xf third fourth thirdDigit fourthDigit shape existing
      (digits ▸ named)
  cases transfer with
  | decimal => exact spelled 0x3 0x3 rfl (by omega) (by omega) rfl
  | store => exact spelled 0x5 0x5 rfl (by omega) (by omega) rfl
  | load => exact spelled 0x6 0x5 rfl (by omega) (by omega) rfl

end Transfer

namespace Machine

/-- The machine is about to execute a transfer on register `x`. -/
structure Meets (machine : Machine) (transfer : Transfer) (x : Nat) : Prop where
  busy : machine.isIdle = false
  existing : x < 16
  fetched : machine.Fetches (transfer.word x)

instance (machine : Machine) (transfer : Transfer) (x : Nat) :
    Decidable (machine.Meets transfer x) :=
  decidable_of_iff
    (machine.isIdle = false ∧ x < 16 ∧ machine.Fetches (transfer.word x))
    ⟨fun all => ⟨all.1, all.2.1, all.2.2⟩, fun meets => ⟨meets.1, meets.2, meets.3⟩⟩

/-- The machine after a transfer that stays inside memory. -/
def moved (machine : Machine) (x : Nat) : Transfer → Machine
  | .decimal => machine.storeBlock (decimalDigits (machine.registers.read x))
  | .store => (machine.storeBlock (machine.registers.take (x + 1))).passBlock (x + 1)
  | .load =>
      passBlock
        { machine with registers := machine.registers.writeFrom 0 (machine.block (x + 1)) }
        (x + 1)

/-- How far a block of the registers up to `x` moves the index register. -/
def advance (machine : Machine) (x : Nat) : Nat :=
  if machine.settings.dialect.keepsIndex then 0 else x + 1

variable {machine : Machine} {transfer : Transfer} {x : Nat} {dice : Dice}

/-! ### One transfer -/

private theorem execute_transfer (machine : Machine) (transfer : Transfer) (existing : x < 16)
    (roll : UInt8) :
    machine.execute roll (.register transfer.operation (UInt64.ofNat x)) =
      machine.withBlock (transfer.length x) (machine.moved x transfer) := by
  cases transfer <;>
    simp only [Transfer.operation, execute, executeRegister, read,
      Instruction.toNat_registerNumber existing, moved, Transfer.length]

private theorem reaches_poised_iff {word : UInt16} :
    (machine.poised word).Reaches (transfer.length x) ↔
      machine.index.toNat + transfer.length x ≤ 0x1000 := by
  have some_bytes : transfer.length x ≠ 0 := by
    cases transfer <;> exact Nat.succ_ne_zero _
  exact or_iff_right some_bytes

theorem tick_moves (meets : machine.Meets transfer x)
    (inside : machine.index.toNat + transfer.length x ≤ 0x1000) (dice : Dice) :
    machine.tick dice =
      { result := .ok ()
        machine := (machine.poised (transfer.word x)).moved x transfer
        dice := dice
        trace := (machine.poised (transfer.word x)).traceLines } := by
  obtain ⟨busy, existing, fetched⟩ := meets
  have ran := (execute_transfer (machine.poised (transfer.word x)) transfer existing
    dice.roll).trans (withBlock_eq_ok_iff.mpr ⟨reaches_poised_iff.mpr inside, rfl⟩)
  exact tick_of_executed busy fetched (transfer.ofWord?_word existing) ran

private theorem tick_of_leaving (meets : machine.Meets transfer x)
    (outside : 0x1000 < machine.index.toNat + transfer.length x) (dice : Dice) :
    machine.tick dice =
      { result := .error (.outOfBounds (max machine.index.toNat 0x1000) machine.pc)
        machine := machine.poised (transfer.word x)
        dice := dice
        trace := (machine.poised (transfer.word x)).traceLines } := by
  obtain ⟨busy, existing, fetched⟩ := meets
  have beyond : ¬ (machine.poised (transfer.word x)).Reaches (transfer.length x) :=
    mt reaches_poised_iff.mp (Nat.not_le_of_lt outside)
  have refused := (execute_transfer (machine.poised (transfer.word x)) transfer existing
    dice.roll).trans (withBlock_eq_error_iff.mpr ⟨beyond, rfl⟩)
  exact tick_of_refused busy fetched (transfer.ofWord?_word existing) refused

/-! ### Bytes in a block -/

private theorem getD_take (registers : Registers) {number register : Nat}
    (within : register < number) :
    (registers.take number).getD register 0 = registers.read register := by
  rw [Registers.take, List.getD_eq_getElem?_getD, List.getElem?_map, List.getElem?_range within]
  rfl

theorem byte_storeBlock (machine : Machine) {values : List UInt8}
    (inside : machine.index.toNat + values.length ≤ 0x1000) {offset : Nat}
    (within : offset < values.length) :
    (machine.storeBlock values).memory.byte (machine.index.toNat + offset) =
      values.getD offset 0 := by
  have covered : machine.index.toNat ≤ machine.index.toNat + offset ∧
      machine.index.toNat + offset < machine.index.toNat + values.length ∧
      machine.index.toNat + offset < Memory.size := by
    change _ ∧ _ ∧ _ < 0x1000
    omega
  rw [storeBlock, Memory.byte_store, if_pos covered, Nat.add_sub_cancel_left]

theorem byte_storeBlock_of_outside (machine : Machine) (values : List UInt8) {address : Nat}
    (outside : address < machine.index.toNat ∨
      machine.index.toNat + values.length ≤ address) :
    (machine.storeBlock values).memory.byte address = machine.memory.byte address := by
  rw [storeBlock, Memory.byte_store, if_neg]
  omega

private theorem getD_decimalDigits_le (value : UInt8) {place : Nat} (within : place < 3) :
    ((decimalDigits value).getD place 0).toNat ≤ 9 := by
  have bound := value.toNat_lt
  have digits : (value / 100).toNat ≤ 9 ∧ (value / 10 % 10).toNat ≤ 9 ∧ (value % 10).toNat ≤ 9 := by
    simp only [UInt8.toNat_mod, UInt8.toNat_div, UInt8.reduceToNat]
    omega
  obtain rfl | rfl | rfl : place = 0 ∨ place = 1 ∨ place = 2 := by omega
  · exact digits.1
  · exact digits.2.1
  · exact digits.2.2

theorem decimalDigits_exact (value : UInt8) :
    100 * ((decimalDigits value).getD 0 0).toNat + 10 * ((decimalDigits value).getD 1 0).toNat +
      ((decimalDigits value).getD 2 0).toNat = value.toNat := by
  change 100 * (value / 100).toNat + 10 * (value / 10 % 10).toNat + (value % 10).toNat = _
  simp only [UInt8.toNat_mod, UInt8.toNat_div, UInt8.reduceToNat]
  omega

/-! ### What a transfer moves -/

theorem memory_stored (machine : Machine) (x : Nat) :
    (machine.moved x .store).memory =
      (machine.storeBlock (machine.registers.take (x + 1))).memory := by
  rw [moved, passBlock_eq]

private theorem registers_stored (machine : Machine) (x : Nat) :
    (machine.moved x .store).registers = machine.registers := by
  rw [moved, passBlock_eq]
  rfl

private theorem memory_loaded (machine : Machine) (x : Nat) :
    (machine.moved x .load).memory = machine.memory := by
  rw [moved, passBlock_eq]

theorem toNat_index_passBlock (machine : Machine)
    (inside : machine.index.toNat + (x + 1) ≤ 0x1000) :
    (machine.passBlock (x + 1)).index.toNat = machine.index.toNat + machine.advance x := by
  rw [passBlock_eq, advance]
  dsimp only
  split
  · rfl
  · rw [UInt16.toNat_add, UInt16.toNat_ofNat']
    omega

private theorem byte_stored (machine : Machine) (inside : machine.index.toNat + (x + 1) ≤ 0x1000)
    {offset : Nat} (within : offset ≤ x) :
    (machine.moved x .store).memory.byte (machine.index.toNat + offset) =
      machine.registers.read offset := by
  have counted : offset < x + 1 := Nat.lt_succ_of_le within
  have size := machine.registers.length_take (x + 1)
  rw [memory_stored, machine.byte_storeBlock (by rwa [size]) (by rwa [size]), getD_take _ counted]

theorem read_loaded (machine : Machine) (existing : x < 16) (register : Nat) :
    (machine.moved x .load).registers.read register =
      if register ≤ x then machine.memory.byte (machine.index.toNat + register)
      else machine.registers.read register := by
  have covered : 0 ≤ register ∧ register < 0 + (x + 1) ∧ register < Registers.count ↔
      register ≤ x := by
    change _ ∧ _ ∧ register < 16 ↔ _
    omega
  rw [moved, passBlock_eq]
  simp only [Registers.read_writeFrom, length_block, covered]
  split
  · rename_i within
    rw [Nat.sub_zero, getD_block machine (Nat.lt_succ_of_le within)]
  · rfl

/-! ### Stores, conversions and loads -/

/-- A store leaves the registers up to `x` in memory at the index register, and changes no other
byte and no register. -/
theorem tick_stores (meets : machine.Meets .store x)
    (inside : machine.index.toNat + (x + 1) ≤ 0x1000) (dice : Dice) :
    let stored := machine.tick dice
    stored.result = .ok () ∧ stored.machine.registers = machine.registers ∧
      (∀ offset ≤ x, stored.machine.memory.byte (machine.index.toNat + offset) =
        machine.registers.read offset) ∧
      (∀ address, address < machine.index.toNat ∨ machine.index.toNat + x < address →
        stored.machine.memory.byte address = machine.memory.byte address) ∧
      stored.machine.index.toNat = machine.index.toNat + machine.advance x := by
  intro stored
  have moves : stored = _ := tick_moves meets inside dice
  rw [moves]
  refine ⟨rfl, registers_stored (machine.poised _) x, ?_, ?_, toNat_index_passBlock _ inside⟩
  · exact fun offset => byte_stored (machine.poised _) inside
  · intro address outside
    rw [memory_stored]
    refine byte_storeBlock_of_outside (machine.poised _) _ ?_
    rw [Registers.length_take]
    exact outside

theorem tick_converts (meets : machine.Meets .decimal x)
    (inside : machine.index.toNat + 3 ≤ 0x1000) (dice : Dice) :
    let written := machine.tick dice
    written.result = .ok () ∧ written.machine.registers = machine.registers ∧
      (∀ place < 3, written.machine.memory.byte (machine.index.toNat + place) =
        (decimalDigits (machine.registers.read x)).getD place 0) ∧
      (∀ address, address < machine.index.toNat ∨ machine.index.toNat + 3 ≤ address →
        written.machine.memory.byte address = machine.memory.byte address) ∧
      written.machine.index = machine.index := by
  intro written
  have moves : written = _ := tick_moves meets inside dice
  rw [moves]
  refine ⟨rfl, rfl, ?_, ?_, rfl⟩
  · intro place within
    have room : (machine.poised (Transfer.word .decimal x)).index.toNat +
        (decimalDigits (machine.registers.read x)).length ≤ 0x1000 := inside
    exact byte_storeBlock _ room within
  · exact fun address outside => byte_storeBlock_of_outside (machine.poised _) _ outside

theorem tick_loads (meets : machine.Meets .load x)
    (inside : machine.index.toNat + (x + 1) ≤ 0x1000) (dice : Dice) :
    let loaded := machine.tick dice
    loaded.result = .ok () ∧
      (∀ register ≤ x, loaded.machine.registers.read register =
        machine.memory.byte (machine.index.toNat + register)) ∧
      (∀ register, x < register →
        loaded.machine.registers.read register = machine.registers.read register) ∧
      loaded.machine.memory = machine.memory ∧
      loaded.machine.index.toNat = machine.index.toNat + machine.advance x := by
  intro loaded
  have moves : loaded = _ := tick_moves meets inside dice
  rw [moves]
  refine ⟨rfl, ?_, ?_, memory_loaded _ x, toNat_index_passBlock _ inside⟩
  · intro register within
    rw [read_loaded _ meets.existing, if_pos within]
    rfl
  · intro register above
    rw [read_loaded _ meets.existing, if_neg (Nat.not_le_of_lt above)]
    rfl

/-! ### There and back -/

/-- Registers that are stored and then loaded from where they were stored are what they were,
and nothing but the block differs in memory. The digits of a register are decimal, write its
value, and are loaded like any block. A transfer for which memory has no room is refused and
leaves the registers, memory and the index register alone. -/
theorem transfers_survive_memory (machine : Machine) (x : Nat) (dice : Dice) :
    (machine.Meets .store x → machine.index.toNat + x + 1 ≤ 0x1000 →
      let stored := machine.tick dice
      stored.result = .ok () ∧ stored.machine.registers = machine.registers ∧
        (∀ address, address < machine.index.toNat ∨ machine.index.toNat + x < address →
          stored.machine.memory.byte address = machine.memory.byte address) ∧
        stored.machine.index.toNat = machine.index.toNat + machine.advance x ∧
        ∀ (between : Machine) (rolls : Dice), between.memory = stored.machine.memory →
          between.index = machine.index → between.Meets .load x →
          let loaded := between.tick rolls
          loaded.result = .ok () ∧
            (∀ register ≤ x,
              loaded.machine.registers.read register = machine.registers.read register) ∧
            (∀ register, x < register →
              loaded.machine.registers.read register = between.registers.read register) ∧
            loaded.machine.memory = stored.machine.memory ∧
            loaded.machine.index.toNat = machine.index.toNat + between.advance x) ∧
    (machine.Meets .decimal x → machine.index.toNat + 3 ≤ 0x1000 →
      let written := machine.tick dice
      let digit (place : Nat) : Nat :=
        (written.machine.memory.byte (machine.index.toNat + place)).toNat
      written.result = .ok () ∧ written.machine.registers = machine.registers ∧
        (∀ address, address < machine.index.toNat ∨ machine.index.toNat + 3 ≤ address →
          written.machine.memory.byte address = machine.memory.byte address) ∧
        written.machine.index = machine.index ∧
        (∀ place < 3, digit place ≤ 9) ∧
        100 * digit 0 + 10 * digit 1 + digit 2 = (machine.registers.read x).toNat ∧
        ∀ (between : Machine) (rolls : Dice), between.memory = written.machine.memory →
          between.index = machine.index → between.Meets .load 2 →
          let loaded := between.tick rolls
          loaded.result = .ok () ∧
            ∀ place < 3, (loaded.machine.registers.read place).toNat = digit place) ∧
    ∀ transfer, machine.Meets transfer x →
      0x1000 < machine.index.toNat + transfer.length x →
      let refused := machine.tick dice
      refused.result = .error (.outOfBounds (max machine.index.toNat 0x1000) machine.pc) ∧
        refused.machine =
          { machine with
            pc := machine.pc + 2
            drawn := false
            fetched := { address := machine.pc, word := transfer.word x }
            cycle := machine.cycle + 1 } := by
  refine ⟨?_, ?_, ?_⟩
  · intro meets inside stored
    obtain ⟨succeeded, registers, block, others, index⟩ := tick_stores meets inside dice
    refine ⟨succeeded, registers, others, index, ?_⟩
    intro between rolls sameMemory sameIndex loads loaded
    obtain ⟨succeeds, restored, kept, memory, indexLater⟩ :=
      tick_loads loads (sameIndex ▸ inside) rolls
    -- the load looks at nothing of the machine in between but its memory and index register
    rw [sameMemory, sameIndex] at restored
    rw [sameIndex] at indexLater
    refine ⟨succeeds, ?_, kept, memory.trans sameMemory, indexLater⟩
    exact fun register within => (restored register within).trans (block register within)
  · intro meets inside written digit
    obtain ⟨succeeded, registers, block, others, index⟩ := tick_converts meets inside dice
    have digits : ∀ place < 3, digit place =
        ((decimalDigits (machine.registers.read x)).getD place 0).toNat :=
      fun place within => congrArg UInt8.toNat (block place within)
    refine ⟨succeeded, registers, others, index, ?_, ?_, ?_⟩
    · intro place within
      rw [digits place within]
      exact getD_decimalDigits_le _ within
    · rw [digits 0 (by omega), digits 1 (by omega), digits 2 (by omega)]
      exact decimalDigits_exact _
    · intro between rolls sameMemory sameIndex loads loaded
      obtain ⟨succeeds, restored, -⟩ := tick_loads loads (sameIndex ▸ inside) rolls
      refine ⟨succeeds, ?_⟩
      intro place within
      rw [restored place (Nat.le_of_lt_succ within), sameMemory, sameIndex]
  · intro transfer meets outside refused
    have stays : refused = _ := tick_of_leaving meets outside dice
    rw [stays]
    exact ⟨rfl, rfl⟩

def transferring (program : List UInt8) (index : UInt16) : Machine :=
  { standard with
    memory := Memory.zeroed.store 0x200 program
    index := index
    registers := (Registers.zeroed.write 0 7).write 1 254 }

/-- Two registers survive in the last two bytes of memory, and the digits of one of them in the
middle of it. One byte further on there is no room for two registers. -/
theorem transferring_survives :
    let dice : Dice := { source := fun _ => 0, taken := 0 }
    let block := transferring [0xf1, 0x55, 0xf1, 0x65] 0xffe
    let stored := block.tick dice
    let between :=
      { stored.machine with registers := Registers.zeroed.write 2 5, index := 0xffe }
    let loaded := (between.tick dice).machine
    let byte := transferring [0xf1, 0x33, 0xf2, 0x65] 0x300
    let written := byte.tick dice
    let digits := (written.machine.tick dice).machine.registers
    let edge := transferring [0xf1, 0x55] 0xfff
    (block.Meets .store 1 ∧ between.Meets .load 1 ∧ loaded.registers.read 0 = 7 ∧
      loaded.registers.read 1 = 254 ∧ loaded.registers.read 2 = 5 ∧
      loaded.index.toNat = 0x1000) ∧
    (byte.Meets .decimal 1 ∧ written.machine.Meets .load 2 ∧
      (∀ place < 3, (digits.read place).toNat ≤ 9) ∧
      100 * (digits.read 0).toNat + 10 * (digits.read 1).toNat + (digits.read 2).toNat = 254) ∧
    edge.Meets .store 1 ∧ 0x1000 < edge.index.toNat + Transfer.length 1 .store ∧
      (edge.tick dice).result = .error (.outOfBounds 0x1000 0x200) := by
  intro dice block stored between loaded byte written digits edge
  have stores : block.Meets .store 1 := by decide +kernel
  have loads : between.Meets .load 1 := by decide +kernel
  have converts : byte.Meets .decimal 1 := by decide +kernel
  have reads : written.machine.Meets .load 2 := by decide +kernel
  have atEdge : edge.Meets .store 1 := by decide +kernel
  have noRoom : 0x1000 < edge.index.toNat + Transfer.length 1 .store := by decide
  obtain ⟨back, -, -⟩ := transfers_survive_memory block 1 dice
  obtain ⟨-, -, -, -, comesBack⟩ := back stores (by decide)
  obtain ⟨-, restored, others, -, index⟩ := comesBack between dice rfl rfl loads
  have passed : block.index.toNat + between.advance 1 = 0x1000 := by decide +kernel
  obtain ⟨-, exact, -⟩ := transfers_survive_memory byte 1 dice
  obtain ⟨-, -, -, sameIndex, decimal, value, follows⟩ := exact converts (by decide)
  obtain ⟨-, shown⟩ := follows written.machine dice rfl sameIndex reads
  obtain ⟨-, -, leaves⟩ := transfers_survive_memory edge 1 dice
  refine ⟨⟨stores, loads, restored 0 (by decide), restored 1 (by decide), others 2 (by decide),
    index.trans passed⟩, ⟨converts, reads, ?_, ?_⟩, atEdge, noRoom, (leaves .store atEdge noRoom).1⟩
  · intro place within
    exact Nat.le_trans (Nat.le_of_eq (shown place within)) (decimal place within)
  · simp only [digits]
    rw [shown 0 (by decide), shown 1 (by decide), shown 2 (by decide)]
    exact value

end Machine

end Chip8
