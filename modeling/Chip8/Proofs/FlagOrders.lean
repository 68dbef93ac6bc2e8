import Chip8.Proofs.Arithmetic
import Chip8.Proofs.Dialects

/-!
The two orders in which a flag and a result may be written. They are compared by running one
machine under both: the orders show in the register of the result alone, and there only if the
operation reads the flag register, or has its result in it.
-/

namespace Chip8

/-! ### Two orders of two writes -/

namespace Registers

variable {registers : Registers} {x : Nat} {raised : Bool} {compute : Registers → UInt8}

/-- A result that does not depend on the flag may be written before it or after it. -/
theorem writeFlagged_swap (existing : x < count) (apart : x ≠ flag)
    (unseen : compute (registers.writeFlag raised) = compute registers) :
    registers.writeFlagged true x raised compute =
      registers.writeFlagged false x raised compute := by
  apply ext_read
  intro register _
  by_cases result : register = x
  · subst result
    rw [read_writeFlagged_self true existing apart, read_writeFlagged_self false existing apart]
    exact unseen.symm
  · rw [read_writeFlagged_of_ne true result, read_writeFlagged_of_ne false result]

theorem read_writeFlagged_told (existing : x < count) (apart : x ≠ flag) (again : Bool) :
    (registers.writeFlagged false x raised compute).read x =
      ((registers.writeFlag raised).writeFlagged true x again compute).read x := by
  rw [read_writeFlagged_self false existing apart, read_writeFlagged_self true existing apart]
  rfl

end Registers

namespace Arithmetic

variable {op : Arithmetic}

/-- All but addition go by the order that the dialect has chosen, and by no other choice of it
that the order has a part in. -/
theorem combine_ordered (ordered : op ≠ .add) (dialect : Dialect) (chosen : Bool) (x y : Nat)
    (registers : Registers) :
    registers.combine (dialect.withChoice .flagLast chosen) op.operation x y =
      registers.writeFlagged chosen x (op.raises dialect x y registers)
        (op.result dialect x y) := by
  cases op with
  | add => exact absurd rfl ordered
  | subtract => rfl
  | shiftRight => rfl
  | subtractFrom => rfl
  | shiftLeft => rfl

end Arithmetic

namespace Machine

variable {machine : Machine} {word : UInt16} {op : Arithmetic} {x y : Nat}

/-! ### One tick under either order -/

theorem tick_ordered (ordered : op ≠ .add) (busy : machine.isIdle = false)
    (fetched : machine.Fetches word)
    (named : word.toNat = 0x8000 + 0x100 * x + 0x10 * y + op.digit) (first : x < 16)
    (second : y < 16) (chosen : Bool) (dice : Dice) :
    (machine.adopting .flagLast chosen).tick dice =
      { result := .ok ()
        machine :=
          { (machine.poised word).adopting .flagLast chosen with
            registers :=
              machine.registers.writeFlagged chosen x
                (op.raises machine.settings.dialect x y machine.registers)
                (op.result machine.settings.dialect x y) }
        dice := dice
        trace := (machine.poised word).traceLines } := by
  have stillBusy : (machine.adopting .flagLast chosen).isIdle = false := busy
  have stillFetched : (machine.adopting .flagLast chosen).Fetches word := fetched
  have ticked := tick_arithmetic stillBusy stillFetched named first second dice
  have combined := Arithmetic.combine_ordered ordered machine.settings.dialect chosen x y
    machine.registers
  rw [ticked, ← combined]
  rfl

/-- Whether the flag is written first or last shows in the register of the result alone. It does
not show there either unless the flag register is read for the result or takes it. Where it is
read, the flag that goes first is read in its place. Where it takes the result, it holds what is
written last: the flag, or a result that was computed from the flag. -/
theorem flag_order_shows_in_result (op : Arithmetic) (ordered : op ≠ .add) (x y : Nat)
    (busy : machine.isIdle = false) (fetched : machine.Fetches word)
    (named : word.toNat = 0x8000 + 0x100 * x + 0x10 * y + op.digit) (first : x < 16)
    (second : y < 16) (dice : Dice) :
    let dialect := machine.settings.dialect
    let early := (machine.adopting .flagLast false).tick dice
    let late := (machine.adopting .flagLast true).tick dice
    let earlier := early.machine.registers
    let later := late.machine.registers
    (early.result = .ok () ∧ late.result = .ok () ∧ late.dice = early.dice ∧
        late.trace = early.trace ∧
        late.machine = { early.machine.adopting .flagLast true with registers := later } ∧
        ∀ register, register ≠ x → later.read register = earlier.read register) ∧
      (x ≠ 0xf → 0xf ∉ op.reads dialect x y →
        late.machine = early.machine.adopting .flagLast true) ∧
      (x ≠ 0xf →
        let told : Machine :=
          { machine with registers := machine.registers.write 0xf (earlier.read 0xf) }
        later.read 0xf = earlier.read 0xf ∧
          earlier.read x =
            ((told.adopting .flagLast true).tick dice).machine.registers.read x) ∧
      (x = 0xf →
        later.read 0xf = Registers.bit (op.raises dialect x y machine.registers) ∧
          earlier.read 0xf =
            op.result dialect x y (machine.registers.write 0xf (later.read 0xf))) := by
  intro dialect early late earlier later
  have earlyTick : early = _ := tick_ordered ordered busy fetched named first second false dice
  have lateTick : late = _ := tick_ordered ordered busy fetched named first second true dice
  have writtenFirst : earlier = machine.registers.writeFlagged false x
      (op.raises dialect x y machine.registers) (op.result dialect x y) :=
    congrArg (fun outcome => outcome.machine.registers) earlyTick
  have writtenLast : later = machine.registers.writeFlagged true x
      (op.raises dialect x y machine.registers) (op.result dialect x y) :=
    congrArg (fun outcome => outcome.machine.registers) lateTick
  refine ⟨⟨?_, ?_, ?_, ?_, ?_, ?_⟩, ?_, ?_, ?_⟩
  · rw [earlyTick]
  · rw [lateTick]
  · rw [earlyTick, lateTick]
  · rw [earlyTick, lateTick]
  · rw [writtenLast, earlyTick, lateTick]
    rfl
  · intro register besides
    rw [writtenFirst, writtenLast, Registers.read_writeFlagged_of_ne true besides,
      Registers.read_writeFlagged_of_ne false besides]
  · intro apart unread
    have swapped := Registers.writeFlagged_swap first apart
      (Arithmetic.result_writeFlag unread machine.registers
        (op.raises dialect x y machine.registers))
    rw [earlyTick, lateTick, swapped]
    rfl
  · intro apart told
    have flagFirst : earlier.read 0xf =
        Registers.bit (op.raises dialect x y machine.registers) := by
      rw [writtenFirst]
      exact Registers.read_flag_writeFlagged false apart
    have flagLast : later.read 0xf =
        Registers.bit (op.raises dialect x y machine.registers) := by
      rw [writtenLast]
      exact Registers.read_flag_writeFlagged true apart
    have toldBusy : told.isIdle = false := busy
    have toldFetched : told.Fetches word := fetched
    have toldTick := tick_ordered ordered toldBusy toldFetched named first second true dice
    have toldFlag : told.registers =
        machine.registers.writeFlag (op.raises dialect x y machine.registers) :=
      congrArg (machine.registers.write 0xf) flagFirst
    refine ⟨flagLast.trans flagFirst.symm, ?_⟩
    rw [toldTick, writtenFirst]
    refine (Registers.read_writeFlagged_told first apart
      (op.raises dialect x y told.registers)).trans ?_
    rw [← toldFlag]
  · rintro rfl
    have flagLast : later.read 0xf =
        Registers.bit (op.raises dialect 0xf y machine.registers) := by
      rw [writtenLast]
      exact Registers.read_writeFlag _ _
    refine ⟨flagLast, ?_⟩
    rw [flagLast, writtenFirst]
    exact Registers.read_write_self _ _ first

def unflagged : Machine :=
  { standard with
    memory := Memory.zeroed.store 0x200 [0x81, 0xf5]
    registers := (Registers.zeroed.write 1 5).write 0xf 3 }

/-- If the flag goes first, one is subtracted and not three. -/
theorem unflagged_shows_order :
    let dice : Dice := { source := fun _ => 0, taken := 0 }
    let earlier := ((unflagged.adopting .flagLast false).tick dice).machine.registers
    let later := ((unflagged.adopting .flagLast true).tick dice).machine.registers
    let told : Machine :=
      { unflagged with registers := unflagged.registers.write 0xf (earlier.read 0xf) }
    Arithmetic.subtract ≠ .add ∧ unflagged.isIdle = false ∧ unflagged.Fetches 0x81f5 ∧
      later.read 0xf = earlier.read 0xf ∧ later.read 1 = 2 ∧ earlier.read 1 = 4 ∧
      earlier.read 1 = ((told.adopting .flagLast true).tick dice).machine.registers.read 1 := by
  intro dice earlier later told
  have busy : unflagged.isIdle = false := by decide +kernel
  have fetched : unflagged.Fetches 0x81f5 := by unfold Fetches; decide +kernel
  obtain ⟨-, -, between, -⟩ := flag_order_shows_in_result .subtract (by decide) 1 15 busy fetched
    rfl (by decide) (by decide) dice
  obtain ⟨sameFlag, asTold⟩ := between (by decide)
  exact ⟨by decide, busy, fetched, sameFlag, by decide +kernel, by decide +kernel, asTold⟩

end Machine

end Chip8
