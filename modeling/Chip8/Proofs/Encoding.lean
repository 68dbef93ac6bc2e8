import Mathlib.Tactic.Ring
import Chip8.Proofs.Decoding

/-!
Writing an instruction into a word and reading a word are inverse to each other. A pattern
reads from its own cells what it has written into them, up to the digits that a field has no
cells for; and a word that a pattern accepts is written again, digit for digit, from the
operands that were read from it.
-/

namespace Chip8

namespace Word

private theorem digits_ofDigits {digits : List Nat} (four : digits.length = 4)
    (small : ∀ digit ∈ digits, digit < 16) : Word.digits (ofDigits digits) = digits := by
  rcases digits with _ | ⟨first, _ | ⟨second, _ | ⟨third, _ | ⟨fourth, _ | ⟨fifth, rest⟩⟩⟩⟩⟩
  case cons.cons.cons.cons.nil =>
    simp only [List.forall_mem_cons, List.not_mem_nil, false_imp_iff, implies_true,
      and_true] at small
    obtain ⟨firstSmall, secondSmall, thirdSmall, fourthSmall⟩ := small
    simp only [Word.digits, ofDigits, List.foldl, UInt16.toNat_ofNat', List.cons.injEq,
      and_true]
    omega
  all_goals simp at four

private theorem high_ofBytes (first second : UInt8) : high (ofBytes first second) = first := by
  have firstBound := first.toNat_lt
  have secondBound := second.toNat_lt
  apply UInt8.toNat.inj
  rw [high, toNat_ofBytes, UInt8.toNat_ofNat']
  omega

private theorem low_ofBytes (first second : UInt8) : low (ofBytes first second) = second := by
  have secondBound := second.toNat_lt
  apply UInt8.toNat.inj
  rw [low, toNat_ofBytes, UInt8.toNat_ofNat']
  omega

end Word

/-! ### Filling a pattern and reading it -/

def Cell.isHex : Cell → Bool
  | .literal digit => digit < 16
  | .field _ => true

namespace Pattern

theorem fill_literal (values : Field → Nat) (digit : Nat) (cells : Pattern) :
    fill values (.literal digit :: cells) = digit :: fill values cells :=
  rfl

theorem fill_field (values : Field → Nat) (field : Field) (cells : Pattern) :
    fill values (.field field :: cells) =
      values field / 16 ^ width cells field % 16 :: fill values cells :=
  rfl

private theorem length_fill (values : Field → Nat) (pattern : Pattern) :
    (pattern.fill values).length = pattern.length := by
  induction pattern with
  | nil => rfl
  | cons cell cells ih =>
      cases cell with
      | literal digit => rw [fill_literal, List.length_cons, List.length_cons, ih]
      | field field => rw [fill_field, List.length_cons, List.length_cons, ih]

private theorem fill_lt (values : Field → Nat) {pattern : Pattern}
    (hex : pattern.all Cell.isHex = true) : ∀ digit ∈ pattern.fill values, digit < 16 := by
  induction pattern with
  | nil => exact fun digit member => absurd member List.not_mem_nil
  | cons cell cells ih =>
      rw [List.all_cons, Bool.and_eq_true] at hex
      obtain ⟨here, later⟩ := hex
      cases cell with
      | literal digit => exact List.forall_mem_cons.mpr ⟨of_decide_eq_true here, ih later⟩
      | field field =>
          exact List.forall_mem_cons.mpr ⟨Nat.mod_lt _ (by decide), ih later⟩

private theorem accepts_fill (values : Field → Nat) (pattern : Pattern) :
    pattern.accepts (pattern.fill values) = true := by
  induction pattern with
  | nil => rfl
  | cons cell cells ih =>
      cases cell with
      | literal digit =>
          rw [fill_literal, accepts, ih, Bool.and_true, Cell.accepts, beq_self_eq_true]
      | field field => rw [fill_field, accepts, ih, Bool.and_true, Cell.accepts]

private theorem read_fill (values : Field → Nat) (field : Field) (pattern : Pattern) (start : Nat) :
    read field pattern (pattern.fill values) start =
      start * 16 ^ pattern.width field + values field % 16 ^ pattern.width field := by
  induction pattern generalizing start with
  | nil => simp [read, width, Nat.mod_one]
  | cons cell cells ih =>
      cases cell with
      | literal digit =>
          have other : Cell.literal digit ≠ .field field := by
            intro equal
            cases equal
          rw [fill_literal, read, if_neg other, ih, width_cons_of_ne other]
      | field first =>
          rw [fill_field, read, ih]
          by_cases same : first = field
          · subst same
            rw [if_pos rfl, width_cons_self, Nat.mod_pow_succ, Nat.pow_succ]
            ring
          · have other : Cell.field first ≠ .field field := fun equal => same (Cell.field.inj equal)
            rw [if_neg other, width_cons_of_ne other]

private theorem extract_fill (values : Field → Nat) (pattern : Pattern) (field : Field) :
    pattern.extract (pattern.fill values) field = values field % 16 ^ pattern.width field := by
  rw [extract, read_fill, Nat.zero_mul, Nat.zero_add]

theorem read_div (field : Field) {pattern : Pattern} {digits : List Nat}
    (accepted : pattern.accepts digits = true) (small : ∀ digit ∈ digits, digit < 16)
    (start : Nat) :
    read field pattern digits start / 16 ^ pattern.width field = start := by
  induction pattern generalizing digits start with
  | nil =>
      cases digits with
      | nil => exact Nat.div_one start
      | cons digit rest => cases accepted
  | cons cell cells ih =>
      cases digits with
      | nil => cases accepted
      | cons digit rest =>
          obtain ⟨-, acceptedRest⟩ := Bool.and_eq_true_iff.mp accepted
          obtain ⟨smallDigit, smallRest⟩ := List.forall_mem_cons.mp small
          rw [read]
          by_cases same : cell = .field field
          · subst same
            rw [if_pos rfl, width_cons_self, Nat.pow_succ, ← Nat.div_div_eq_div_mul,
              ih acceptedRest smallRest]
            omega
          · rw [if_neg same, width_cons_of_ne same, ih acceptedRest smallRest]

/-- Digits that a pattern accepts are written again from what was read from them. The values
may have been read with more digits in front, as those of an outer pattern are. -/
theorem fill_of_read {values : Field → Nat} {pattern : Pattern} {digits : List Nat}
    (accepted : pattern.accepts digits = true) (small : ∀ digit ∈ digits, digit < 16)
    (readings : ∀ field, ∃ start, values field = read field pattern digits start) :
    pattern.fill values = digits := by
  induction pattern generalizing digits with
  | nil =>
      cases digits with
      | nil => rfl
      | cons digit rest => cases accepted
  | cons cell cells ih =>
      cases digits with
      | nil => cases accepted
      | cons digit rest =>
          obtain ⟨acceptedDigit, acceptedRest⟩ := Bool.and_eq_true_iff.mp accepted
          obtain ⟨smallDigit, smallRest⟩ := List.forall_mem_cons.mp small
          have tail : fill values cells = rest := by
            refine ih acceptedRest smallRest fun field => ?_
            obtain ⟨start, reading⟩ := readings field
            exact ⟨_, reading⟩
          cases cell with
          | literal expected =>
              have same : expected = digit := eq_of_beq acceptedDigit
              rw [fill_literal, tail, same]
          | field field =>
              obtain ⟨start, reading⟩ := readings field
              have front : values field / 16 ^ width cells field = 16 * start + digit := by
                rw [reading, read, if_pos rfl, read_div field acceptedRest smallRest]
              have head : values field / 16 ^ width cells field % 16 = digit := by
                rw [front]
                omega
              rw [fill_field, tail, head]

private theorem fill_extract {pattern : Pattern} {digits : List Nat}
    (accepted : pattern.accepts digits = true) (small : ∀ digit ∈ digits, digit < 16) :
    pattern.fill (pattern.extract digits) = digits :=
  fill_of_read accepted small fun _ => ⟨0, rfl⟩

end Pattern

/-! ### Words and instructions -/

namespace Opcode

private theorem pattern_wellFormed (opcode : Opcode) :
    opcode.pattern.length = 4 ∧ opcode.pattern.all Cell.isHex = true := by
  have every : ∀ opcode ∈ all,
      opcode.pattern.length = 4 ∧ opcode.pattern.all Cell.isHex = true := by decide +kernel
  exact every opcode (mem_all opcode)

end Opcode

def Field.width : Field → Nat
  | .x => 1
  | .y => 1
  | .n => 1
  | .byte => 2
  | .address => 3

namespace Instruction

variable {instruction : Instruction} {word : UInt16} {bytes : List UInt8}

theorem digits_toWord (instruction : Instruction) :
    Word.digits instruction.toWord = instruction.opcode.pattern.fill instruction.operand := by
  obtain ⟨four, hex⟩ := instruction.opcode.pattern_wellFormed
  exact Word.digits_ofDigits (by rw [Pattern.length_fill, four]) (Pattern.fill_lt _ hex)

theorem toWord_of_decoded (decoded : ofWord? word = some instruction) :
    instruction.toWord = word := by
  obtain ⟨matched, operands⟩ := ofWord?_eq_some_iff.mp decoded
  rw [toWord, operands, Pattern.fill_extract matched (Word.digits_lt word),
    Word.ofDigits_digits]

private theorem ext_operand {left right : Instruction} (opcode : left.opcode = right.opcode)
    (operand : left.operand = right.operand) : left = right := by
  rw [← ofOperands_operand left, ← ofOperands_operand right, opcode, operand]

theorem operand_mod (instruction : Instruction) (field : Field) :
    instruction.operand field % 16 ^ instruction.opcode.fieldWidth field =
      instruction.operand field % 16 ^ field.width := by
  cases instruction <;> cases field <;> rfl

def narrowed (instruction : Instruction) : Instruction :=
  ofOperands instruction.opcode fun field => instruction.operand field % 16 ^ field.width

theorem opcode_narrowed (instruction : Instruction) :
    instruction.narrowed.opcode = instruction.opcode :=
  opcode_ofOperands _ _

theorem operand_narrowed (instruction : Instruction) :
    instruction.narrowed.operand =
      fun field => instruction.operand field % 16 ^ field.width := by
  refine operand_ofOperands _ _ fun field => ?_
  rw [← operand_mod]
  exact Nat.mod_lt _ (Nat.pow_pos (by decide))

private theorem narrowed_of_fitting (fits : ∀ field, instruction.operand field < 16 ^ field.width) :
    instruction.narrowed = instruction := by
  apply ext_operand instruction.opcode_narrowed
  funext field
  rw [operand_narrowed]
  exact Nat.mod_eq_of_lt (fits field)

private theorem ofWord?_toWord (instruction : Instruction) :
    ofWord? instruction.toWord = some instruction.narrowed := by
  refine ofWord?_eq_some_iff.mpr ⟨?_, ?_⟩
  · rw [opcode_narrowed, Opcode.matchesWord, digits_toWord]
    exact Pattern.accepts_fill _ _
  · rw [opcode_narrowed, operand_narrowed, digits_toWord]
    funext field
    rw [Pattern.extract_fill, Opcode.width_pattern, operand_mod]

/-! ### Bytes and buffers -/

theorem isSome_ofWord?_iff :
    (ofWord? word).isSome ↔ ∃ opcode : Opcode, opcode.matchesWord word := by
  rw [ofWord?, Option.isSome_map, Opcode.isSome_ofWord?_iff]

theorem ofBytes?_eq_some_iff :
    ofBytes? bytes = some instruction ↔
      ∃ high low rest, bytes = high :: low :: rest ∧
        ofWord? (Word.ofBytes high low) = some instruction := by
  constructor
  · intro decoded
    rcases bytes with _ | ⟨high, _ | ⟨low, rest⟩⟩
    · cases decoded
    · cases decoded
    · exact ⟨high, low, rest, rfl, decoded⟩
  · rintro ⟨high, low, rest, rfl, decoded⟩
    exact decoded

private theorem isSome_ofBytes?_iff :
    (ofBytes? bytes).isSome ↔
      ∃ high low rest, bytes = high :: low :: rest ∧
        ∃ opcode : Opcode, opcode.matchesWord (Word.ofBytes high low) := by
  simp only [Option.isSome_iff_exists, ofBytes?_eq_some_iff, ← isSome_ofWord?_iff]
  constructor
  · rintro ⟨instruction, high, low, rest, same, decoded⟩
    exact ⟨high, low, rest, same, instruction, decoded⟩
  · rintro ⟨high, low, rest, same, instruction, decoded⟩
    exact ⟨instruction, high, low, rest, same, decoded⟩

private theorem ofBytes?_take (bytes : List UInt8) : ofBytes? bytes = ofBytes? (bytes.take 2) := by
  rcases bytes with _ | ⟨high, _ | ⟨low, rest⟩⟩ <;> rfl

variable {buffer : List UInt8}

private theorem write?_eq_none_iff : instruction.write? buffer = none ↔ buffer.length < 2 := by
  rcases buffer with _ | ⟨first, _ | ⟨second, rest⟩⟩
  · exact ⟨fun _ => Nat.zero_lt_two, fun _ => rfl⟩
  · exact ⟨fun _ => Nat.one_lt_two, fun _ => rfl⟩
  · constructor
    · intro refused
      cases refused
    · intro short
      simp only [List.length_cons] at short
      omega

theorem write?_of_room (instruction : Instruction) (room : 2 ≤ buffer.length) :
    instruction.write? buffer =
      some (Word.high instruction.toWord :: Word.low instruction.toWord :: buffer.drop 2) := by
  rcases buffer with _ | ⟨first, _ | ⟨second, rest⟩⟩
  · exact absurd room (Nat.not_le_of_lt Nat.zero_lt_two)
  · exact absurd room (Nat.not_le_of_lt Nat.one_lt_two)
  · rfl

theorem write?_of_decoded (decoded : ofBytes? bytes = some instruction)
    (room : 2 ≤ buffer.length) :
    instruction.write? buffer = some (bytes.take 2 ++ buffer.drop 2) := by
  obtain ⟨high, low, rest, rfl, word⟩ := ofBytes?_eq_some_iff.mp decoded
  rw [write?_of_room instruction room, toWord_of_decoded word, Word.high_ofBytes,
    Word.low_ofBytes]
  rfl

private theorem ofBytes?_written (instruction : Instruction) (rest : List UInt8) :
    ofBytes? (Word.high instruction.toWord :: Word.low instruction.toWord :: rest) =
      some instruction.narrowed := by
  rw [ofBytes?, Word.ofBytes_high_low, ofWord?_toWord]

/-- Bytes decode exactly if the first two match a pattern, and no word matches two. What was
decoded is written back as it was read. What is written decodes to the same instruction with
the digits dropped for which its fields have no room. -/
theorem decoding_inverts_writing :
    (Opcode.all.length = 34 ∧ Opcode.all.Nodup ∧ (∀ opcode, opcode ∈ Opcode.all) ∧
      ∀ (left right : Opcode) word,
        left.matchesWord word → right.matchesWord word → left = right) ∧
    (∀ bytes,
      ((ofBytes? bytes).isSome ↔
        ∃ high low rest, bytes = high :: low :: rest ∧
          ∃ opcode : Opcode, opcode.matchesWord (Word.ofBytes high low)) ∧
      ofBytes? bytes = ofBytes? (bytes.take 2)) ∧
    (∀ bytes buffer instruction, ofBytes? bytes = some instruction → 2 ≤ buffer.length →
      instruction.write? buffer = some (bytes.take 2 ++ buffer.drop 2)) ∧
    (∀ instruction buffer, 2 ≤ buffer.length →
      ∃ written decoded, instruction.write? buffer = some written ∧
        written.drop 2 = buffer.drop 2 ∧
        ofBytes? written = some decoded ∧
        decoded.opcode = instruction.opcode ∧
        (∀ field, decoded.operand field = instruction.operand field % 16 ^ field.width) ∧
        ((∀ field, instruction.operand field < 16 ^ field.width) → decoded = instruction)) ∧
    (∀ bytes instruction, ofBytes? bytes = some instruction →
      instruction.operand .x < 16 ∧ instruction.operand .y < 16 ∧
        instruction.operand .n < 16 ∧ instruction.operand .address < 0x1000) ∧
    ∀ (instruction : Instruction) (buffer : List UInt8), buffer.length < 2 →
      instruction.write? buffer = none ∧ (instruction.write? buffer).getD buffer = buffer := by
  refine ⟨⟨rfl, by decide, Opcode.mem_all, fun _ _ _ => Opcode.matchesWord_unique⟩,
    fun bytes => ⟨isSome_ofBytes?_iff, ofBytes?_take bytes⟩,
    fun _ _ _ => write?_of_decoded, ?_, ?_, ?_⟩
  · intro instruction buffer room
    refine ⟨_, instruction.narrowed, write?_of_room instruction room, rfl,
      ofBytes?_written instruction _, instruction.opcode_narrowed, ?_, narrowed_of_fitting⟩
    exact congrFun instruction.operand_narrowed
  · intro bytes instruction decoded
    obtain ⟨high, low, rest, -, word⟩ := ofBytes?_eq_some_iff.mp decoded
    have narrow (field : Field) : instruction.operand field < 16 ^ field.width := by
      have room := fits_of_decoded word field
      rw [← Nat.mod_eq_of_lt room, operand_mod]
      exact Nat.mod_lt _ (Nat.pow_pos (by decide))
    exact ⟨narrow .x, narrow .y, narrow .n, narrow .address⟩
  · intro instruction buffer short
    have refused : instruction.write? buffer = none := write?_eq_none_iff.mpr short
    exact ⟨refused, by rw [refused, Option.getD_none]⟩

/-- The third byte is neither read nor written, and an operand that is too wide does not spill
into the field beside it. -/
theorem wide_sprite_narrowed :
    ofBytes? [0x8a, 0xb4, 0xff] = some (.pair .add 0xa 0xb) ∧
      (Instruction.pair .add 0xa 0xb).write? [1, 2, 3] = some [0x8a, 0xb4, 3] ∧
      ∃ written decoded, (Instruction.sprite 0x10f 0x2e 0xff).write? [0, 0] = some written ∧
        ofBytes? written = some decoded ∧ decoded.opcode = .sprite ∧
        decoded.operand .x = 0xf ∧ decoded.operand .y = 0xe ∧ decoded.operand .n = 0xf := by
  obtain ⟨-, -, writtenBack, written, -, -⟩ := decoding_inverts_writing
  have decoded : ofBytes? [0x8a, 0xb4, 0xff] = some (.pair .add 0xa 0xb) := by decide +kernel
  obtain ⟨buffer, narrow, stored, -, read, sameOpcode, fields, -⟩ :=
    written (.sprite 0x10f 0x2e 0xff) [0, 0] (by decide)
  exact ⟨decoded, writtenBack _ [1, 2, 3] _ decoded (by decide),
    buffer, narrow, stored, read, sameOpcode, fields .x, fields .y, fields .n⟩

end Instruction

end Chip8
