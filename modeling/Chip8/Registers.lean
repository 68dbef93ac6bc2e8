/-!
The sixteen byte registers. Register fifteen also receives flags. A register
that does not exist reads as zero, and writing it has no effect.

`read` is the view by which a register file is known.
-/

namespace Chip8

structure Registers where
  cells : Vector UInt8 16
  deriving DecidableEq

namespace Registers

def count : Nat := 16

def flag : Nat := 15

def zeroed : Registers := { cells := Vector.replicate 16 0 }

def read (registers : Registers) (register : Nat) : UInt8 :=
  registers.cells[register]?.getD 0

def write (registers : Registers) (register : Nat) (value : UInt8) : Registers :=
  { cells := registers.cells.setIfInBounds register value }

def bit (condition : Bool) : UInt8 := if condition then 1 else 0

def writeFlag (registers : Registers) (condition : Bool) : Registers :=
  registers.write flag (bit condition)

def take (registers : Registers) (number : Nat) : List UInt8 :=
  (List.range number).map registers.read

/-- Write values into the registers from `register` on. -/
def writeFrom (registers : Registers) (register : Nat) : List UInt8 → Registers
  | [] => registers
  | value :: values => (registers.write register value).writeFrom (register + 1) values

def toList (registers : Registers) : List UInt8 := registers.take count

theorem bit_eq_one_iff {condition : Bool} : bit condition = 1 ↔ condition = true := by
  cases condition <;> decide

theorem bit_eq_zero_iff {condition : Bool} : bit condition = 0 ↔ condition = false := by
  cases condition <;> decide

theorem ext_read {left right : Registers}
    (same : ∀ register, register < count → left.read register = right.read register) :
    left = right := by
  rcases left with ⟨left⟩
  rcases right with ⟨right⟩
  refine congrArg Registers.mk (Vector.ext (fun register inside => ?_))
  have value := same register inside
  simpa only [read, Vector.getElem?_eq_getElem inside, Option.getD_some] using value

theorem read_write (registers : Registers) (register other : Nat) (value : UInt8) :
    (registers.write register value).read other =
      if other = register ∧ register < count then value else registers.read other := by
  simp only [read, write, Vector.getElem?_setIfInBounds]
  by_cases same : register = other
  · subst same
    by_cases inside : register < count
    · have within : register < 16 := inside
      simp [within, inside]
    · have beyond : ¬ register < 16 := inside
      simp [beyond, inside]
  · simp [same, Ne.symm same]

theorem read_write_self (registers : Registers) {register : Nat} (value : UInt8)
    (existing : register < count) : (registers.write register value).read register = value := by
  rw [read_write]
  exact if_pos ⟨rfl, existing⟩

theorem read_write_of_ne (registers : Registers) {register other : Nat} (value : UInt8)
    (apart : other ≠ register) :
    (registers.write register value).read other = registers.read other := by
  rw [read_write]
  exact if_neg fun written => apart written.1

theorem read_writeFlag (registers : Registers) (condition : Bool) :
    (registers.writeFlag condition).read flag = bit condition :=
  registers.read_write_self (bit condition) (by decide)

theorem read_writeFlag_of_ne (registers : Registers) {other : Nat} (condition : Bool)
    (apart : other ≠ flag) :
    (registers.writeFlag condition).read other = registers.read other :=
  registers.read_write_of_ne (bit condition) apart

theorem length_take (registers : Registers) (number : Nat) :
    (registers.take number).length = number := by
  rw [take, List.length_map, List.length_range]

theorem read_writeFrom (registers : Registers) (register other : Nat)
    (values : List UInt8) :
    (registers.writeFrom register values).read other =
      if register ≤ other ∧ other < register + values.length ∧ other < count then
        values.getD (other - register) 0
      else registers.read other := by
  induction values generalizing registers register with
  | nil =>
      have empty : ¬ (register ≤ other ∧ other < register + ([] : List UInt8).length ∧
          other < count) := by
        simp only [List.length_nil]
        omega
      rw [if_neg empty]
      rfl
  | cons value values ih =>
      rw [writeFrom, ih, read_write, List.length_cons]
      by_cases first : other = register
      · subst first
        have later : ¬ (other + 1 ≤ other ∧ other < other + 1 + values.length ∧
            other < count) := by omega
        rw [if_neg later]
        by_cases inside : other < count
        · have covered : other ≤ other ∧ other < other + (values.length + 1) ∧
              other < count := by omega
          rw [if_pos ⟨rfl, inside⟩, if_pos covered, Nat.sub_self]
          rfl
        · have uncovered : ¬ (other ≤ other ∧ other < other + (values.length + 1) ∧
              other < count) := by omega
          rw [if_neg (fun both => inside both.2), if_neg uncovered]
      · by_cases later : register + 1 ≤ other ∧ other < register + 1 + values.length ∧
            other < count
        · have covered : register ≤ other ∧ other < register + (values.length + 1) ∧
              other < count := by omega
          have offset : other - register = (other - (register + 1)) + 1 := by omega
          rw [if_pos later, if_pos covered, offset, List.getD_cons_succ]
        · have uncovered : ¬ (register ≤ other ∧
              other < register + (values.length + 1) ∧ other < count) := by omega
          rw [if_neg later, if_neg uncovered, if_neg (fun both => first both.1)]

end Registers

end Chip8
