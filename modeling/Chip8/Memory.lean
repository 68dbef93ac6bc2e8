import Chip8.Memory.Glyphs
import Chip8.Text.Numeral
import Chip8.Word

/-!
Four kibibytes of flat memory. Addresses are natural numbers, so that a range
near the end is compared without wrapping. Every checked operation either stays
inside memory or is refused as a whole.

`byte` is the view by which memory is known: it determines a memory, and each
store is described by what it does to it.
-/

namespace Chip8

structure Memory where
  cells : Vector UInt8 4096
  deriving DecidableEq

namespace Memory

def size : Nat := 4096

def zeroed : Memory := { cells := Vector.replicate 4096 0 }

def byte? (memory : Memory) (address : Nat) : Option UInt8 := memory.cells[address]?

/-- The byte at an address, or zero beyond the end. -/
def byte (memory : Memory) (address : Nat) : UInt8 := (memory.byte? address).getD 0

def slice (memory : Memory) (start length : Nat) : List UInt8 :=
  (List.range length).map (fun offset => memory.byte (start + offset))

def Inside (start stop : Nat) : Prop := start ≤ stop ∧ stop ≤ size

instance (start stop : Nat) : Decidable (Inside start stop) :=
  inferInstanceAs (Decidable (start ≤ stop ∧ stop ≤ size))

def range? (memory : Memory) (start stop : Nat) : Option (List UInt8) :=
  if Inside start stop then some (memory.slice start (stop - start)) else none

/-- The big-endian word whose first byte is at an address. -/
def word? (memory : Memory) (address : Nat) : Option UInt16 :=
  if Inside address (address + 2) then
    some (Word.ofBytes (memory.byte address) (memory.byte (address + 1)))
  else none

/-- A store beyond the end has no effect. -/
def set (memory : Memory) (address : Nat) (value : UInt8) : Memory :=
  { cells := memory.cells.setIfInBounds address value }

def store (memory : Memory) (address : Nat) : List UInt8 → Memory
  | [] => memory
  | value :: values => (memory.set address value).store (address + 1) values

def write? (memory : Memory) (address : Nat) (values : List UInt8) : Option Memory :=
  if Inside address (address + values.length) then some (memory.store address values)
  else none

def loadGlyphs? (memory : Memory) (base : Nat) : Option Memory :=
  memory.write? base Glyphs.bytes

def occupied (memory : Memory) : Nat :=
  memory.cells.toList.countP (fun value => value != 0)

def summary (memory : Memory) : String :=
  "Mem \x7b len: " ++ Text.decimal ' ' 1 size ++ ", used: " ++
    Text.decimal ' ' 1 memory.occupied ++ " \x7d"

def tallSummary (memory : Memory) : String :=
  "Mem \x7b\n    len: " ++ Text.decimal ' ' 1 size ++ ",\n    used: " ++
    Text.decimal ' ' 1 memory.occupied ++ ",\n\x7d"

theorem byte_eq_zero_of_size_le (memory : Memory) {address : Nat}
    (outside : size ≤ address) : memory.byte address = 0 := by
  have missing : memory.cells[address]? = none := Vector.getElem?_eq_none outside
  rw [byte, byte?, missing, Option.getD_none]

theorem byte?_eq (memory : Memory) (address : Nat) :
    memory.byte? address = if address < size then some (memory.byte address) else none := by
  by_cases inside : address < size
  · have present : memory.cells[address]? = some memory.cells[address] :=
      Vector.getElem?_eq_getElem inside
    rw [if_pos inside, byte, byte?, present, Option.getD_some]
  · rw [if_neg inside]
    exact Vector.getElem?_eq_none (Nat.le_of_not_lt inside)

theorem ext_byte {left right : Memory}
    (same : ∀ address, address < size → left.byte address = right.byte address) :
    left = right := by
  rcases left with ⟨left⟩
  rcases right with ⟨right⟩
  refine congrArg Memory.mk (Vector.ext (fun address inside => ?_))
  have at_address := same address inside
  simpa only [byte, byte?, Vector.getElem?_eq_getElem inside, Option.getD_some]
    using at_address

theorem byte_zeroed (address : Nat) : zeroed.byte address = 0 := by
  by_cases inside : address < 4096
  · simp [byte, byte?, zeroed, inside]
  · exact byte_eq_zero_of_size_le _ (Nat.le_of_not_lt inside)

theorem byte_set (memory : Memory) (address other : Nat) (value : UInt8) :
    (memory.set address value).byte other =
      if other = address ∧ address < size then value else memory.byte other := by
  simp only [byte, byte?, set, Vector.getElem?_setIfInBounds]
  by_cases same : address = other
  · subst same
    by_cases inside : address < size
    · have within : address < 4096 := inside
      simp [within, inside]
    · have beyond : ¬ address < 4096 := inside
      simp [beyond, inside]
  · simp [same, Ne.symm same]

theorem byte_store (memory : Memory) (address other : Nat) (values : List UInt8) :
    (memory.store address values).byte other =
      if address ≤ other ∧ other < address + values.length ∧ other < size then
        values.getD (other - address) 0
      else memory.byte other := by
  induction values generalizing memory address with
  | nil =>
      have empty : ¬ (address ≤ other ∧ other < address + ([] : List UInt8).length ∧
          other < size) := by
        simp only [List.length_nil]
        omega
      rw [if_neg empty]
      rfl
  | cons value values ih =>
      rw [store, ih, byte_set, List.length_cons]
      by_cases first : other = address
      · subst first
        have later : ¬ (other + 1 ≤ other ∧ other < other + 1 + values.length ∧
            other < size) := by omega
        by_cases inside : other < size
        · have covered : other ≤ other ∧ other < other + (values.length + 1) ∧
              other < size := by omega
          rw [if_neg later, if_pos ⟨rfl, inside⟩, if_pos covered, Nat.sub_self]
          rfl
        · have uncovered : ¬ (other ≤ other ∧ other < other + (values.length + 1) ∧
              other < size) := by omega
          rw [if_neg later, if_neg (fun both => inside both.2), if_neg uncovered]
      · by_cases later : address + 1 ≤ other ∧ other < address + 1 + values.length ∧
            other < size
        · have covered : address ≤ other ∧ other < address + (values.length + 1) ∧
              other < size := by omega
          have offset : other - address = (other - (address + 1)) + 1 := by omega
          rw [if_pos later, if_pos covered, offset, List.getD_cons_succ]
        · have uncovered : ¬ (address ≤ other ∧
              other < address + (values.length + 1) ∧ other < size) := by omega
          rw [if_neg later, if_neg uncovered, if_neg (fun both => first both.1)]

end Memory

inductive Region
  | program
  deriving DecidableEq, Repr

namespace Region

def start : Region → Nat
  | .program => 0x200

def stop : Region → Nat
  | .program => Memory.size

def capacity (region : Region) : Nat := region.stop - region.start

end Region

namespace Memory

/-- Data are placed at the start of a region; what follows them is kept. -/
def loadRegion? (memory : Memory) (region : Region) (data : List UInt8) :
    Option Memory :=
  if data.length ≤ region.capacity then some (memory.store region.start data) else none

def region (memory : Memory) (region : Region) : List UInt8 :=
  memory.slice region.start region.capacity

end Memory

end Chip8
