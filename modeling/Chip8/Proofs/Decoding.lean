import Mathlib.Algebra.Group.Nat.Defs
import Chip8.Instruction

/-!
Decoding is unambiguous: the patterns of two opcodes never accept the same word. So a
word decodes to an opcode exactly if it matches that opcode's pattern, and each field of
the instruction is the number that the word has in its place. A decoded operand is no
wider than its field.
-/

namespace Chip8

/-! ### Patterns that share no word -/

/-- Whether some digit is accepted by both cells. -/
def Cell.overlaps : Cell → Cell → Bool
  | .literal left, .literal right => left == right
  | _, _ => true

theorem Cell.overlaps_of_accepts {left right : Cell} {digit : Nat}
    (first : left.accepts digit) (second : right.accepts digit) :
    left.overlaps right := by
  cases left with
  | field field => rfl
  | literal leftDigit =>
      cases right with
      | field field => rfl
      | literal rightDigit =>
          have leftSame : leftDigit = digit := eq_of_beq first
          have rightSame : rightDigit = digit := eq_of_beq second
          exact beq_iff_eq.mpr (leftSame.trans rightSame.symm)

def Pattern.overlaps : Pattern → Pattern → Bool
  | [], [] => true
  | left :: lefts, right :: rights => left.overlaps right && overlaps lefts rights
  | _, _ => false

theorem Pattern.overlaps_of_accepts {left right : Pattern} {digits : List Nat}
    (first : left.accepts digits) (second : right.accepts digits) :
    left.overlaps right := by
  induction left generalizing right digits with
  | nil =>
      cases digits with
      | cons digit rest => cases first
      | nil =>
          cases right with
          | nil => rfl
          | cons cell cells => cases second
  | cons cell cells ih =>
      cases digits with
      | nil => cases first
      | cons digit rest =>
          cases right with
          | nil => cases second
          | cons other others =>
              obtain ⟨firstHead, firstTail⟩ := Bool.and_eq_true_iff.mp first
              obtain ⟨secondHead, secondTail⟩ := Bool.and_eq_true_iff.mp second
              exact Bool.and_eq_true_iff.mpr
                ⟨Cell.overlaps_of_accepts firstHead secondHead, ih firstTail secondTail⟩

namespace Opcode

private theorem overlaps_only_itself :
    ∀ left ∈ all, ∀ right ∈ all, left.pattern.overlaps right.pattern → left = right := by
  decide +kernel

theorem matchesWord_unique {left right : Opcode} {word : UInt16}
    (first : left.matchesWord word) (second : right.matchesWord word) : left = right :=
  overlaps_only_itself left (mem_all left) right (mem_all right)
    (Pattern.overlaps_of_accepts first second)

theorem ofWord?_eq_some_iff {word : UInt16} {opcode : Opcode} :
    ofWord? word = some opcode ↔ opcode.matchesWord word := by
  constructor
  · intro found
    exact List.find?_some (p := fun opcode : Opcode => opcode.matchesWord word) found
  · intro matched
    have present : (ofWord? word).isSome := (isSome_ofWord?_iff word).mpr ⟨opcode, matched⟩
    obtain ⟨other, found⟩ := Option.isSome_iff_exists.mp present
    have otherMatches : other.matchesWord word :=
      List.find?_some (p := fun opcode : Opcode => opcode.matchesWord word) found
    rw [found, matchesWord_unique otherMatches matched]

theorem ofWord?_eq_none_iff {word : UInt16} :
    ofWord? word = none ↔ ∀ opcode : Opcode, ¬ opcode.matchesWord word := by
  rw [← Option.not_isSome_iff_eq_none, isSome_ofWord?_iff, not_exists]

end Opcode

/-! ### The width of a field bounds its operand -/

theorem Word.digits_lt (word : UInt16) : ∀ digit ∈ Word.digits word, digit < 16 := by
  have bound := word.toNat_lt
  simp only [Word.digits, List.forall_mem_cons, List.not_mem_nil, false_imp_iff, implies_true,
    and_true]
  omega

namespace Pattern

theorem width_cons_self (field : Field) (cells : Pattern) :
    width (.field field :: cells) field = width cells field + 1 :=
  List.count_cons_self

theorem width_cons_of_ne {cell : Cell} {field : Field} (other : cell ≠ .field field)
    (cells : Pattern) : width (cell :: cells) field = width cells field :=
  List.count_cons_of_ne other

private theorem read_lt (field : Field) (pattern : Pattern) (digits : List Nat) (value : Nat)
    (small : ∀ digit ∈ digits, digit < 16) :
    read field pattern digits value < (value + 1) * 16 ^ pattern.width field := by
  induction pattern generalizing digits value with
  | nil => simp [read, width]
  | cons cell cells ih =>
      cases digits with
      | nil =>
          have positive : 0 < 16 ^ width (cell :: cells) field := Nat.pow_pos (by decide)
          have grown := Nat.le_mul_of_pos_right (value + 1) positive
          simp only [read]
          omega
      | cons digit rest =>
          have smallRest : ∀ other ∈ rest, other < 16 :=
            fun other member => small other (List.mem_cons_of_mem digit member)
          have smallDigit : digit < 16 := small digit List.mem_cons_self
          by_cases same : cell = .field field
          · have tail := ih rest (16 * value + digit) smallRest
            have bound : 16 * value + digit + 1 ≤ (value + 1) * 16 := by omega
            subst same
            rw [read, if_pos rfl, width_cons_self, Nat.pow_succ, Nat.mul_comm (16 ^ _),
              ← Nat.mul_assoc]
            exact Nat.lt_of_lt_of_le tail (Nat.mul_le_mul_right _ bound)
          · rw [read, if_neg same, width_cons_of_ne same]
            exact ih rest value smallRest

theorem extract_lt (pattern : Pattern) (field : Field) (word : UInt16) :
    pattern.extract (Word.digits word) field < 16 ^ pattern.width field := by
  simpa only [extract, Nat.zero_add, Nat.one_mul] using
    read_lt field pattern (Word.digits word) 0 (Word.digits_lt word)

end Pattern

/-- The number of digits that the words of an opcode give to a field. -/
def Opcode.fieldWidth : Opcode → Field → Nat
  | .address _, .address => 3
  | .byte _, .x => 1
  | .byte _, .byte => 2
  | .pair _, .x => 1
  | .pair _, .y => 1
  | .sprite, .x => 1
  | .sprite, .y => 1
  | .sprite, .n => 1
  | .register _, .x => 1
  | _, _ => 0

theorem Opcode.width_pattern (opcode : Opcode) (field : Field) :
    opcode.pattern.width field = opcode.fieldWidth field := by
  have every : ∀ opcode ∈ all, ∀ field ∈ [Field.x, .y, .n, .byte, .address],
      opcode.pattern.width field = opcode.fieldWidth field := by decide +kernel
  exact every opcode (mem_all opcode) field (by cases field <;> decide)

namespace Instruction

def Fits (instruction : Instruction) : Prop :=
  ∀ field, instruction.operand field < 16 ^ instruction.opcode.fieldWidth field

theorem opcode_ofOperands (opcode : Opcode) (operand : Field → Nat) :
    (ofOperands opcode operand).opcode = opcode := by
  cases opcode <;> rfl

theorem operand_ofOperands (opcode : Opcode) (operand : Field → Nat)
    (narrow : ∀ field, operand field < 16 ^ opcode.fieldWidth field) :
    (ofOperands opcode operand).operand = operand := by
  funext field
  have bound := narrow field
  cases opcode <;> cases field <;>
    simp only [Opcode.fieldWidth, Nat.pow_zero, Nat.pow_one] at bound <;>
    simp only [ofOperands, Instruction.operand, UInt64.toNat_ofNat', UInt16.toNat_ofNat',
      UInt8.toNat_ofNat'] <;>
    omega

/-- A word decodes to an instruction exactly if it matches the pattern of the
instruction's opcode and has the instruction's operands in the fields. -/
theorem ofWord?_eq_some_iff {word : UInt16} {instruction : Instruction} :
    ofWord? word = some instruction ↔
      instruction.opcode.matchesWord word ∧
        instruction.operand = instruction.opcode.pattern.extract (Word.digits word) := by
  have narrow (opcode : Opcode) (field : Field) :
      opcode.pattern.extract (Word.digits word) field < 16 ^ opcode.fieldWidth field := by
    rw [← Opcode.width_pattern]
    exact Pattern.extract_lt opcode.pattern field word
  rw [ofWord?, Option.map_eq_some_iff]
  constructor
  · intro decoded
    rcases decoded with ⟨opcode, found, rfl⟩
    rw [opcode_ofOperands, operand_ofOperands opcode _ (narrow opcode)]
    exact ⟨Opcode.ofWord?_eq_some_iff.mp found, rfl⟩
  · intro fits
    rcases fits with ⟨matched, operands⟩
    refine ⟨instruction.opcode, Opcode.ofWord?_eq_some_iff.mpr matched, ?_⟩
    rw [← operands, ofOperands_operand]

theorem ofWord?_eq_none_iff {word : UInt16} :
    ofWord? word = none ↔ ∀ opcode : Opcode, ¬ opcode.matchesWord word := by
  rw [ofWord?, Option.map_eq_none_iff, Opcode.ofWord?_eq_none_iff]

theorem fits_of_decoded {word : UInt16} {instruction : Instruction}
    (decoded : ofWord? word = some instruction) : instruction.Fits := by
  intro field
  rw [(ofWord?_eq_some_iff.mp decoded).2, ← Opcode.width_pattern]
  exact Pattern.extract_lt instruction.opcode.pattern field word

/-! ### Operands of instructions that fit -/

theorem Fits.target_lt {op : AddressOp} {target : UInt16}
    (fits : (Instruction.address op target).Fits) : target.toNat < 4096 :=
  fits .address

theorem Fits.byte_x_lt {op : ByteOp} {x : UInt64} {value : UInt8}
    (fits : (Instruction.byte op x value).Fits) : x.toNat < 16 :=
  fits .x

theorem Fits.pair_lt {op : PairOp} {x y : UInt64}
    (fits : (Instruction.pair op x y).Fits) : x.toNat < 16 ∧ y.toNat < 16 :=
  ⟨fits .x, fits .y⟩

theorem Fits.sprite_lt {x y : UInt64} {rows : UInt8}
    (fits : (Instruction.sprite x y rows).Fits) :
    x.toNat < 16 ∧ y.toNat < 16 ∧ rows.toNat < 16 :=
  ⟨fits .x, fits .y, fits .n⟩

theorem Fits.register_x_lt {op : RegisterOp} {x : UInt64}
    (fits : (Instruction.register op x).Fits) : x.toNat < 16 :=
  fits .x

/-! ### Words as numbers -/

private theorem operands_eq_iff {left right : Field → Nat} :
    left = right ↔ left .x = right .x ∧ left .y = right .y ∧ left .n = right .n ∧
      left .byte = right .byte ∧ left .address = right .address := by
  constructor
  · rintro rfl
    exact ⟨rfl, rfl, rfl, rfl, rfl⟩
  · intro fields
    rcases fields with ⟨x, y, n, byte, address⟩
    funext field
    cases field with
    | x => exact x
    | y => exact y
    | n => exact n
    | byte => exact byte
    | address => exact address

theorem ofWord?_eq_bare_iff {word : UInt16} {op : BareOp} (third fourth : Nat)
    (thirdDigit : third < 16) (fourthDigit : fourth < 16)
    (shape : Opcode.pattern (.bare op) =
      [.literal 0x0, .literal 0x0, .literal third, .literal fourth]) :
    ofWord? word = some (.bare op) ↔ word.toNat = 16 * third + fourth := by
  have bound := word.toNat_lt
  rw [ofWord?_eq_some_iff, operands_eq_iff]
  simp only [opcode, Opcode.matchesWord, shape, Pattern.accepts, Cell.accepts,
    Bool.and_eq_true, beq_iff_eq, operand, Pattern.extract, Pattern.read, Word.digits,
    reduceCtorEq, if_false, and_self, and_true]
  omega

theorem ofWord?_eq_ret_iff {word : UInt16} :
    ofWord? word = some (.bare .ret) ↔ word.toNat = 0x00ee :=
  ofWord?_eq_bare_iff 0xe 0xe (by decide) (by decide) rfl

theorem ofWord?_eq_address_iff {word target : UInt16} {op : AddressOp} (first : Nat)
    (shape : Opcode.pattern (.address op) = .ofAddress first) :
    ofWord? word = some (.address op target) ↔
      word.toNat / 4096 = first ∧ target.toNat = word.toNat % 4096 := by
  have bound := word.toNat_lt
  rw [ofWord?_eq_some_iff, operands_eq_iff]
  simp only [opcode, Opcode.matchesWord, shape, Pattern.ofAddress, Pattern.accepts,
    Cell.accepts, Bool.and_eq_true, beq_iff_eq, operand, Pattern.extract, Pattern.read,
    Word.digits, reduceCtorEq, Cell.field.injEq, if_false, if_true, and_true, true_and]
  omega

theorem ofWord?_eq_byte_iff {word : UInt16} {op : ByteOp} {x : UInt64} {value : UInt8}
    (first : Nat) (shape : Opcode.pattern (.byte op) = .ofByte first) :
    ofWord? word = some (.byte op x value) ↔
      word.toNat / 4096 = first ∧ x.toNat = word.toNat / 256 % 16 ∧
        value.toNat = word.toNat % 256 := by
  have bound := word.toNat_lt
  rw [ofWord?_eq_some_iff, operands_eq_iff]
  simp only [opcode, Opcode.matchesWord, shape, Pattern.ofByte, Pattern.accepts,
    Cell.accepts, Bool.and_eq_true, beq_iff_eq, operand, Pattern.extract, Pattern.read,
    Word.digits, reduceCtorEq, Cell.field.injEq, if_false, if_true, and_true, true_and]
  omega

theorem ofWord?_eq_pair_iff {word : UInt16} {op : PairOp} {x y : UInt64} (first last : Nat)
    (shape : Opcode.pattern (.pair op) = .ofPair first last) :
    ofWord? word = some (.pair op x y) ↔
      word.toNat / 4096 = first ∧ word.toNat % 16 = last ∧ x.toNat = word.toNat / 256 % 16 ∧
        y.toNat = word.toNat / 16 % 16 := by
  have bound := word.toNat_lt
  rw [ofWord?_eq_some_iff, operands_eq_iff]
  simp only [opcode, Opcode.matchesWord, shape, Pattern.ofPair, Pattern.accepts,
    Cell.accepts, Bool.and_eq_true, beq_iff_eq, operand, Pattern.extract, Pattern.read,
    Word.digits, reduceCtorEq, Cell.field.injEq, if_false, if_true, and_true, true_and]
  omega

theorem ofWord?_eq_call_iff {word target : UInt16} :
    ofWord? word = some (.address .call target) ↔
      word.toNat / 4096 = 0x2 ∧ target.toNat = word.toNat % 4096 :=
  ofWord?_eq_address_iff 0x2 rfl

theorem exists_call_of_named {word : UInt16} (named : word.toNat / 4096 = 0x2) :
    ∃ target, ofWord? word = some (.address .call target) := by
  have target : (UInt16.ofNat (word.toNat % 4096)).toNat = word.toNat % 4096 := by
    rw [UInt16.toNat_ofNat']
    omega
  exact ⟨_, ofWord?_eq_call_iff.mpr ⟨named, target⟩⟩

theorem ofWord?_eq_sprite_iff {word : UInt16} {x y : UInt64} {rows : UInt8} :
    ofWord? word = some (.sprite x y rows) ↔
      word.toNat / 4096 = 0xd ∧ x.toNat = word.toNat / 256 % 16 ∧
        y.toNat = word.toNat / 16 % 16 ∧ rows.toNat = word.toNat % 16 := by
  have bound := word.toNat_lt
  rw [ofWord?_eq_some_iff, operands_eq_iff]
  simp only [opcode, Opcode.matchesWord, Opcode.pattern, Pattern.accepts,
    Cell.accepts, Bool.and_eq_true, beq_iff_eq, operand, Pattern.extract, Pattern.read,
    Word.digits, reduceCtorEq, Cell.field.injEq, if_false, if_true, and_true]
  omega

theorem toNat_registerNumber {x : Nat} (existing : x < 16) : (UInt64.ofNat x).toNat = x := by
  rw [UInt64.toNat_ofNat']
  omega

theorem exists_sprite_of_named {word : UInt16} (named : word.toNat / 4096 = 0xd) :
    ∃ x y rows, ofWord? word = some (.sprite x y rows) := by
  have x := toNat_registerNumber (Nat.mod_lt (word.toNat / 256) (Nat.succ_pos 15))
  have y := toNat_registerNumber (Nat.mod_lt (word.toNat / 16) (Nat.succ_pos 15))
  have rows : (UInt8.ofNat (word.toNat % 16)).toNat = word.toNat % 16 := by
    rw [UInt8.toNat_ofNat']
    omega
  exact ⟨_, _, _, ofWord?_eq_sprite_iff.mpr ⟨named, x, y, rows⟩⟩

theorem ofWord?_eq_register_iff {word : UInt16} {op : RegisterOp} {x : UInt64}
    (first third fourth : Nat) (thirdDigit : third < 16) (fourthDigit : fourth < 16)
    (shape : Opcode.pattern (.register op) = .ofRegister first third fourth) :
    ofWord? word = some (.register op x) ↔
      word.toNat / 4096 = first ∧ word.toNat % 256 = 16 * third + fourth ∧
        x.toNat = word.toNat / 256 % 16 := by
  have bound := word.toNat_lt
  rw [ofWord?_eq_some_iff, operands_eq_iff]
  simp only [opcode, Opcode.matchesWord, shape, Pattern.ofRegister, Pattern.accepts,
    Cell.accepts, Bool.and_eq_true, beq_iff_eq, operand, Pattern.extract, Pattern.read,
    Word.digits, reduceCtorEq, Cell.field.injEq, if_false, if_true, and_true, true_and]
  omega

theorem ofWord?_of_registerDigits {word : UInt16} {op : RegisterOp} {x : Nat}
    (first third fourth : Nat) (thirdDigit : third < 16) (fourthDigit : fourth < 16)
    (shape : Opcode.pattern (.register op) = .ofRegister first third fourth) (existing : x < 16)
    (named : word.toNat = 0x1000 * first + 0x100 * x + (16 * third + fourth)) :
    ofWord? word = some (.register op (UInt64.ofNat x)) := by
  refine (ofWord?_eq_register_iff first third fourth thirdDigit fourthDigit shape).mpr ?_
  rw [toNat_registerNumber existing]
  omega

end Instruction

end Chip8
