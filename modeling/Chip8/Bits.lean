/-!
Lists of bits, most significant first, and the numbers they write.
-/

namespace Chip8.Bits

/-- The number that a list of bits writes after the bits of `start`. -/
def valueFrom (start : Nat) (bits : List Bool) : Nat :=
  bits.foldl (fun total bit => 2 * total + bit.toNat) start

def value (bits : List Bool) : Nat := valueFrom 0 bits

private theorem testBit_append_bit (start place : Nat) (bit : Bool) :
    (2 * start + bit.toNat).testBit place =
      if place = 0 then bit else start.testBit (place - 1) := by
  cases place with
  | zero =>
      rw [if_pos rfl, Nat.testBit_zero]
      cases bit <;> simp
  | succ place =>
      have half : (2 * start + bit.toNat) / 2 = start := by
        cases bit <;> simp only [Bool.toNat_false, Bool.toNat_true] <;> omega
      rw [if_neg (Nat.succ_ne_zero place), Nat.testBit_succ, half, Nat.add_sub_cancel]

theorem testBit_valueFrom (start place : Nat) (bits : List Bool) :
    (valueFrom start bits).testBit place =
      if place < bits.length then bits.getD (bits.length - 1 - place) false
      else start.testBit (place - bits.length) := by
  induction bits generalizing start with
  | nil => simp [valueFrom]
  | cons bit rest ih =>
      have unfolded : valueFrom start (bit :: rest) = valueFrom (2 * start + bit.toNat) rest :=
        rfl
      rw [unfolded, ih, List.length_cons]
      rcases Nat.lt_trichotomy place rest.length with lower | same | higher
      · have within : place < rest.length + 1 := Nat.lt_succ_of_lt lower
        have position : rest.length + 1 - 1 - place = (rest.length - 1 - place) + 1 := by
          omega
        rw [if_pos lower, if_pos within, position, List.getD_cons_succ]
      · subst same
        have position : rest.length + 1 - 1 - rest.length = 0 := by omega
        rw [if_neg (Nat.lt_irrefl _), if_pos (Nat.lt_succ_self _), testBit_append_bit,
          Nat.sub_self, if_pos rfl, position, List.getD_cons_zero]
      · have outside : ¬ place < rest.length := by omega
        have beyond : ¬ place < rest.length + 1 := by omega
        have apart : place - rest.length ≠ 0 := by omega
        have position : place - rest.length - 1 = place - (rest.length + 1) := by omega
        rw [if_neg outside, if_neg beyond, testBit_append_bit, if_neg apart, position]

theorem testBit_value (place : Nat) (bits : List Bool) :
    (value bits).testBit place =
      (decide (place < bits.length) && bits.getD (bits.length - 1 - place) false) := by
  rw [value, testBit_valueFrom]
  by_cases within : place < bits.length
  · rw [if_pos within, decide_eq_true within, Bool.true_and]
  · rw [if_neg within, decide_eq_false within, Bool.false_and, Nat.zero_testBit]

/-- The bits of a number that is written by a function of the position. -/
theorem testBit_value_map_range (bit : Nat → Bool) (count place : Nat) :
    (value ((List.range count).map bit)).testBit place =
      (decide (place < count) && bit (count - 1 - place)) := by
  rw [testBit_value, List.length_map, List.length_range]
  by_cases within : place < count
  · have position : count - 1 - place < count := by omega
    simp [position]
  · rw [decide_eq_false within, Bool.false_and, Bool.false_and]

/-- Bit `position` of a byte, counted from the left. -/
def ofByte (byte : UInt8) (position : Nat) : Bool :=
  byte.toNat.testBit (7 - position)

end Chip8.Bits
