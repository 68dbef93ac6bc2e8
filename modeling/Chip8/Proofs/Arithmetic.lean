import Chip8.Proofs.Decoding
import Chip8.Proofs.Ticking

/-!
Arithmetic on two registers. An operation has a result, a byte, and a flag that says what the byte
has lost: a carry, the absence of a borrow, the bit that was shifted out. Together the two are
exact in the integers, as long as the result is not computed from a register that the flag has
already overwritten.
-/

namespace Chip8

/-- The operations that tell in the flag register what their result has lost. -/
inductive Arithmetic
  | add
  | subtract
  | shiftRight
  | subtractFrom
  | shiftLeft
  deriving DecidableEq, Repr

namespace Arithmetic

def operation : Arithmetic → PairOp
  | .add => .add
  | .subtract => .subtract
  | .shiftRight => .shiftRight
  | .subtractFrom => .subtractFrom
  | .shiftLeft => .shiftLeft

def digit : Arithmetic → Nat
  | .add => 0x4
  | .subtract => 0x5
  | .shiftRight => 0x6
  | .subtractFrom => 0x7
  | .shiftLeft => 0xe

private theorem pattern_operation (op : Arithmetic) :
    Opcode.pattern (.pair op.operation) = .ofPair 0x8 op.digit := by
  cases op <;> rfl

/-- The registers that an operation on registers `x` and `y` reads. -/
def reads (op : Arithmetic) (dialect : Dialect) (x y : Nat) : List Nat :=
  match op with
  | .add => [x, y]
  | .subtract => [x, y]
  | .subtractFrom => [x, y]
  | .shiftRight => [Registers.shiftSource dialect x y]
  | .shiftLeft => [Registers.shiftSource dialect x y]

/-- Addition always computes its result first. -/
def flagLast (op : Arithmetic) (dialect : Dialect) : Bool :=
  op == .add || dialect.flagLast

section

variable (op : Arithmetic) (dialect : Dialect) (x y : Nat) (registers : Registers)

/-- Whether the flag is raised: the sum is no byte, nothing was borrowed, or a one went out. -/
def raises : Bool :=
  let source := Registers.shiftSource dialect x y
  match op with
  | .add => 256 ≤ (registers.read x).toNat + (registers.read y).toNat
  | .subtract => registers.read y ≤ registers.read x
  | .subtractFrom => registers.read x ≤ registers.read y
  | .shiftRight => registers.read source % 2 == 1
  | .shiftLeft => 128 ≤ registers.read source

def result : UInt8 :=
  let source := Registers.shiftSource dialect x y
  match op with
  | .add => registers.read x + registers.read y
  | .subtract => registers.read x - registers.read y
  | .subtractFrom => registers.read y - registers.read x
  | .shiftRight => registers.read source / 2
  | .shiftLeft => 2 * registers.read source

theorem combine_operation :
    registers.combine dialect op.operation x y =
      registers.writeFlagged (op.flagLast dialect) x (op.raises dialect x y registers)
        (op.result dialect x y) := by
  cases op <;> rfl

variable {op dialect x y registers}

theorem result_congr {other : Registers}
    (same : ∀ register ∈ op.reads dialect x y, other.read register = registers.read register) :
    op.result dialect x y other = op.result dialect x y registers := by
  cases op with
  | add | subtract | subtractFrom =>
      have first := same x (List.mem_cons_self ..)
      have second := same y (List.mem_cons_of_mem _ (List.mem_cons_self ..))
      simp only [result, first, second]
  | shiftRight | shiftLeft =>
      have source := same (Registers.shiftSource dialect x y) (List.mem_cons_self ..)
      simp only [result, source]

end

end Arithmetic

/-! ### A flag and a result -/

namespace Registers

section

variable {registers : Registers} {x : Nat} {raised : Bool} {compute : Registers → UInt8}

theorem read_writeFlagged_of_ne (flagLast : Bool) {register : Nat} (apart : register ≠ x) :
    (registers.writeFlagged flagLast x raised compute).read register =
      (registers.writeFlag raised).read register := by
  cases flagLast with
  | true =>
      by_cases same : register = flag
      · subst same
        exact (read_writeFlag _ raised).trans (registers.read_writeFlag raised).symm
      · exact ((read_writeFlag_of_ne _ raised same).trans (read_write_of_ne _ _ apart)).trans
          (registers.read_writeFlag_of_ne raised same).symm
  | false => exact read_write_of_ne _ _ apart

theorem read_flag_writeFlagged (flagLast : Bool) (apart : x ≠ flag) :
    (registers.writeFlagged flagLast x raised compute).read flag = bit raised :=
  (read_writeFlagged_of_ne flagLast apart.symm).trans (registers.read_writeFlag raised)

theorem read_writeFlagged_self (flagLast : Bool) (existing : x < count) (apart : x ≠ flag) :
    (registers.writeFlagged flagLast x raised compute).read x =
      compute (if flagLast then registers else registers.writeFlag raised) := by
  cases flagLast with
  | true => exact (read_writeFlag_of_ne _ raised apart).trans (read_write_self _ _ existing)
  | false => exact read_write_self _ _ existing

end

theorem toNat_bit (condition : Bool) : (bit condition).toNat = condition.toNat := by
  cases condition <;> rfl

/-! ### Bytes and integers -/

variable (left right : UInt8)

private theorem add_exact :
    ((left + right).toNat : Int) + 256 * (bit (256 ≤ left.toNat + right.toNat)).toNat =
      left.toNat + right.toNat := by
  have first := left.toNat_lt
  have second := right.toNat_lt
  rw [toNat_bit, UInt8.toNat_add]
  by_cases carry : 256 ≤ left.toNat + right.toNat
  · rw [decide_eq_true carry, Bool.toNat_true]
    omega
  · rw [decide_eq_false carry, Bool.toNat_false]
    omega

theorem subtract_exact :
    ((left - right).toNat : Int) =
      left.toNat - right.toNat + 256 * (1 - (bit (right ≤ left)).toNat) := by
  have first := left.toNat_lt
  have second := right.toNat_lt
  rw [toNat_bit, UInt8.toNat_sub]
  by_cases enough : right ≤ left
  · have ordered := UInt8.le_iff_toNat_le.mp enough
    rw [decide_eq_true enough, Bool.toNat_true]
    omega
  · have ordered := mt UInt8.le_iff_toNat_le.mpr enough
    rw [decide_eq_false enough, Bool.toNat_false]
    omega

private theorem shiftRight_exact :
    2 * ((left / 2).toNat : Int) + (bit (left % 2 == 1)).toNat = left.toNat := by
  have half : (left / 2).toNat = left.toNat / 2 := UInt8.toNat_div left 2
  have lowest : (left % 2).toNat = left.toNat % 2 := UInt8.toNat_mod left 2
  rw [toNat_bit, half]
  by_cases odd : left % 2 = 1
  · rw [odd] at lowest
    rw [odd, beq_self_eq_true, Bool.toNat_true]
    change 1 = _ at lowest
    omega
  · have even : left.toNat % 2 ≠ 1 := fun one => odd (UInt8.toNat_inj.mp (lowest.trans one))
    rw [beq_eq_false_iff_ne.mpr odd, Bool.toNat_false]
    omega

private theorem shiftLeft_exact :
    ((2 * left).toNat : Int) + 256 * (bit (128 ≤ left)).toNat = 2 * left.toNat := by
  have bound := left.toNat_lt
  have double : (2 * left).toNat = 2 * left.toNat % 256 := UInt8.toNat_mul 2 left
  rw [toNat_bit, double]
  by_cases high : 128 ≤ left
  · have ordered : 128 ≤ left.toNat := UInt8.le_iff_toNat_le.mp high
    rw [decide_eq_true high, Bool.toNat_true]
    omega
  · have ordered : ¬ 128 ≤ left.toNat := fun bound => high (UInt8.le_iff_toNat_le.mpr bound)
    rw [decide_eq_false high, Bool.toNat_false]
    omega

end Registers

theorem Arithmetic.result_writeFlag {op : Arithmetic} {dialect : Dialect} {x y : Nat}
    (unread : Registers.flag ∉ op.reads dialect x y) (registers : Registers) (raised : Bool) :
    op.result dialect x y (registers.writeFlag raised) = op.result dialect x y registers := by
  apply result_congr
  intro register member
  refine registers.read_writeFlag_of_ne raised ?_
  rintro rfl
  exact unread member

/-- The equation over the integers that ties the registers after an operation to those before it. -/
def Arithmetic.Exact (op : Arithmetic) (dialect : Dialect) (x y : Nat) (before after : Registers) :
    Prop :=
  let source := if dialect.shiftsSecond then y else x
  let old (register : Nat) : Int := (before.read register).toNat
  let new (register : Nat) : Int := (after.read register).toNat
  match op with
  | .add => new x + 256 * new 0xf = old x + old y
  | .subtract => new x = old x - old y + 256 * (1 - new 0xf)
  | .subtractFrom => new x = old y - old x + 256 * (1 - new 0xf)
  | .shiftRight => 2 * new x + new 0xf = old source
  | .shiftLeft => new x + 256 * new 0xf = 2 * old source

theorem Arithmetic.exact_of_read {op : Arithmetic} {dialect : Dialect} {x y : Nat}
    {before after : Registers}
    (flag : after.read 0xf = Registers.bit (op.raises dialect x y before))
    (result : after.read x = op.result dialect x y before) : op.Exact dialect x y before after := by
  cases op with
  | add =>
      simp only [Exact, flag, result]
      exact Registers.add_exact _ _
  | subtract =>
      simp only [Exact, flag, result]
      exact Registers.subtract_exact _ _
  | subtractFrom =>
      simp only [Exact, flag, result]
      exact Registers.subtract_exact _ _
  | shiftRight =>
      simp only [Exact, flag, result]
      exact Registers.shiftRight_exact _
  | shiftLeft =>
      simp only [Exact, flag, result]
      exact Registers.shiftLeft_exact _

/-- The result is as if computed from the registers before, unless it is computed after the flag
was written and from the flag register. -/
theorem Arithmetic.read_combine {op : Arithmetic} {dialect : Dialect} {x y : Nat}
    {registers : Registers} (existing : x < Registers.count) (apart : x ≠ Registers.flag)
    (unread : op = .add ∨ dialect.flagLast = true ∨ Registers.flag ∉ op.reads dialect x y) :
    (registers.combine dialect op.operation x y).read x = op.result dialect x y registers := by
  rw [combine_operation, Registers.read_writeFlagged_self _ existing apart]
  cases last : op.flagLast dialect with
  | true => rfl
  | false =>
      simp only [flagLast, Bool.or_eq_false_iff, beq_eq_false_iff_ne] at last
      obtain ⟨notAdd, early⟩ := last
      rcases unread with add | late | unread
      · exact absurd add notAdd
      · exact absurd (late.symm.trans early) Bool.noConfusion
      · exact result_writeFlag unread registers _

namespace Machine

variable {machine : Machine} {word : UInt16}

/-- A tick that finds an arithmetic operation succeeds and changes registers alone, but for what
every tick changes. -/
theorem tick_arithmetic {op : Arithmetic} {x y : Nat} (busy : machine.isIdle = false)
    (fetched : machine.Fetches word)
    (named : word.toNat = 0x8000 + 0x100 * x + 0x10 * y + op.digit) (first : x < 16)
    (second : y < 16) (dice : Dice) :
    machine.tick dice =
      { result := .ok ()
        machine :=
          { machine.poised word with
            registers := machine.registers.combine machine.settings.dialect op.operation x y }
        dice := dice
        trace := (machine.poised word).traceLines } := by
  have low : op.digit < 16 := by cases op <;> decide
  have left := Instruction.toNat_registerNumber first
  have right := Instruction.toNat_registerNumber second
  have decoded : Instruction.ofWord? word =
      some (.pair op.operation (UInt64.ofNat x) (UInt64.ofNat y)) := by
    refine (Instruction.ofWord?_eq_pair_iff 0x8 op.digit op.pattern_operation).mpr ?_
    rw [left, right]
    omega
  have ran : (machine.poised word).execute dice.roll
        (.pair op.operation (UInt64.ofNat x) (UInt64.ofNat y)) =
      .ok { machine.poised word with
        registers := machine.registers.combine machine.settings.dialect op.operation x y } := by
    have skipless : machine.registers.skips op.operation x y = false := by cases op <;> rfl
    simp only [execute, executePair, left, right]
    change Except.ok (skipIf _ (machine.registers.skips op.operation x y)) = _
    rw [skipless]
    rfl
  rw [tick_of_executed busy fetched decoded ran]
  rfl

/-- Arithmetic is exact in the integers: with the flag, which is zero or one, the result says what
the operands were, whether or not they wrap. Only a subtraction or a shift that reads the flag
register after writing it goes by another operand. No other register changes. -/
theorem tick_computes_exactly (op : Arithmetic) (x y : Nat) (busy : machine.isIdle = false)
    (fetched : machine.Fetches word)
    (named : word.toNat = 0x8000 + 0x100 * x + 0x10 * y + op.digit) (first : x < 16)
    (apart : x ≠ 0xf) (second : y < 16) (dice : Dice) :
    let dialect := machine.settings.dialect
    let before := machine.registers
    let after := (machine.tick dice).machine.registers
    (machine.tick dice).result = .ok () ∧
      (after.read 0xf = 0 ∨ after.read 0xf = 1) ∧
      (∀ register, register ≠ x → register ≠ 0xf → after.read register = before.read register) ∧
      (op = .add ∨ dialect.flagLast = true ∨ 0xf ∉ op.reads dialect x y →
        op.Exact dialect x y before after) := by
  intro dialect before after
  have ticked := tick_arithmetic busy fetched named first second dice
  have combined : after = before.combine dialect op.operation x y :=
    congrArg (fun outcome => outcome.machine.registers) ticked
  have flag : after.read 0xf = Registers.bit (op.raises dialect x y before) := by
    rw [combined, op.combine_operation]
    exact Registers.read_flag_writeFlagged _ apart
  refine ⟨congrArg (fun outcome => outcome.result) ticked, ?_, ?_, ?_⟩
  · rw [flag]
    cases op.raises dialect x y before with
    | true => exact .inr rfl
    | false => exact .inl rfl
  · intro register notResult notFlag
    rw [combined, op.combine_operation, Registers.read_writeFlagged_of_ne _ notResult]
    exact before.read_writeFlag_of_ne _ notFlag
  · intro unread
    refine Arithmetic.exact_of_read flag ?_
    rw [combined]
    exact Arithmetic.read_combine first apart unread

def borrowing : Machine :=
  { standard with
    settings := { Settings.standard with dialect := .uniform true }
    memory := Memory.zeroed.store 0x200 [0x81, 0xf5]
    registers := (Registers.zeroed.write 1 3).write 0xf 5 }

/-- Three less five is two hundred and fifty-four less a byte that is borrowed. -/
theorem borrowing_computes_exactly :
    borrowing.isIdle = false ∧ borrowing.Fetches 0x81f5 ∧
      (0x81f5 : UInt16).toNat = 0x8000 + 0x100 * 1 + 0x10 * 15 + Arithmetic.subtract.digit ∧
      ∀ dice,
        let after := (borrowing.tick dice).machine.registers
        (borrowing.tick dice).result = .ok () ∧ after.read 2 = 0 ∧
          ((after.read 1).toNat : Int) = 3 - 5 + 256 * (1 - (after.read 0xf).toNat) := by
  have busy : borrowing.isIdle = false := by decide +kernel
  have fetched : borrowing.Fetches 0x81f5 := by unfold Fetches; decide +kernel
  refine ⟨busy, fetched, rfl, fun dice => ?_⟩
  obtain ⟨succeeded, -, kept, exact⟩ := tick_computes_exactly .subtract 1 15 busy fetched rfl
    (by decide) (by decide) (by decide) dice
  refine ⟨succeeded, ?_, exact (.inr (.inl rfl))⟩
  exact kept 2 (by decide) (by decide)

end Machine

end Chip8
