import Chip8.Disassembler
import Chip8.Proofs.Encoding
import Chip8.Proofs.Escapes

/-!
Assembly text tells its instruction. Cut at blanks and commas, it gives the mnemonic and a token
for each operand. The first character of a token shows what kind of operand it is, a mnemonic
with the kinds of its operands belongs to one opcode alone, and the tokens tell the operands.
-/

namespace Chip8

/-! ### Tokens -/

namespace Text

def isBreak (c : Char) : Bool := c == ' ' || c == ','

/-- What stands between blanks and commas. -/
def tokens (chars : List Char) : List (List Char) :=
  (chars.splitOnP isBreak).filter fun token => !token.isEmpty

structure Whole (text : String) : Prop where
  filled : text.toList ≠ []
  unbroken : ∀ c ∈ text.toList, isBreak c = false

private theorem whole_iff {text : String} :
    (text.toList ≠ [] ∧ text.toList.all (fun c => !isBreak c) = true) ↔ Whole text := by
  simp only [List.all_eq_true, Bool.not_eq_true']
  exact ⟨fun whole => ⟨whole.1, whole.2⟩, fun whole => ⟨whole.filled, whole.unbroken⟩⟩

instance (text : String) : Decidable (Whole text) := decidable_of_iff _ whole_iff

theorem tokens_append_break (chars rest : List Char) {c : Char} (breaks : isBreak c = true) :
    tokens (chars ++ c :: rest) = tokens chars ++ tokens rest := by
  rw [tokens, List.splitOnP_append_cons chars rest breaks, List.filter_append, tokens, tokens]

theorem tokens_of_whole {text : String} (whole : Whole text) :
    tokens text.toList = [text.toList] := by
  have kept : (!text.toList.isEmpty) = true := by
    simpa only [Bool.not_eq_true', List.isEmpty_eq_false_iff] using whole.filled
  rw [tokens, List.splitOnP_eq_singleton whole.unbroken]
  exact List.filter_cons_of_pos kept

theorem tokens_blanks (count : Nat) (rest : List Char) :
    tokens (List.replicate count ' ' ++ rest) = tokens rest := by
  induction count with
  | zero => rfl
  | succ count ih =>
      have first := tokens_append_break [] (List.replicate count ' ' ++ rest) (c := ' ') rfl
      rw [List.replicate_succ, List.cons_append]
      exact first.trans ih

theorem tokens_padEnd {text : String} (whole : Whole text) {width : Nat}
    (short : text.toList.length < width) (rest : List Char) :
    tokens ((padEnd width text).toList ++ rest) = text.toList :: tokens rest := by
  obtain ⟨blanks, count⟩ : ∃ blanks, width - text.length = blanks + 1 := by
    rw [← String.length_toList]
    exact ⟨width - text.toList.length - 1, by omega⟩
  rw [padEnd, String.toList_append, String.toList_ofList, count, List.replicate_succ,
    List.append_assoc, List.cons_append, tokens_append_break _ _ rfl, tokens_of_whole whole,
    tokens_blanks]
  rfl

theorem whole_hex (width value : Nat) : Whole (hex width value) :=
  { filled := toList_hex_ne_nil width value
    unbroken := forall_mem_hex (by decide) width value }

end Text

/-! ### Operands -/

/-- Operands that are named and not numbered. -/
inductive NamedOperand
  | index
  | pointed
  | delay
  | sound
  | key
  | glyph
  | decimal
  deriving DecidableEq, Repr

def NamedOperand.name : NamedOperand → String
  | .index => "I"
  | .pointed => "[I]"
  | .delay => "DT"
  | .sound => "ST"
  | .key => "K"
  | .glyph => "F"
  | .decimal => "B"

inductive Operand
  | register (x : UInt64)
  | byte (value : UInt8)
  | address (target : UInt16)
  | rows (count : UInt8)
  | named (operand : NamedOperand)

/-- What kind of operand a text seems to be. -/
inductive Look
  | register
  | byte
  | numeral
  | name (chars : List Char)
  deriving DecidableEq

def Look.ofToken : List Char → Look
  | [] => .name []
  | c :: rest =>
      if c = 'v' then .register
      else if c = '#' then .byte
      else if c.isDigit || c.isLower then .numeral
      else .name (c :: rest)

namespace Operand

def text : Operand → String
  | .register x => Instruction.registerText x
  | .byte value => Instruction.byteText value
  | .address target => Instruction.addressText target
  | .rows count => Text.hex 1 count.toNat
  | .named operand => operand.name

def look : Operand → Look
  | .register _ => .register
  | .byte _ => .byte
  | .address _ => .numeral
  | .rows _ => .numeral
  | .named operand => .name operand.name.toList

private theorem ofToken_hex (width value : Nat) :
    Look.ofToken (Text.hex width value).toList = .numeral := by
  have digits : ∀ c ∈ (Text.hex width value).toList,
      c ≠ 'v' ∧ c ≠ '#' ∧ (c.isDigit || c.isLower) = true :=
    Text.forall_mem_hex (by decide) width value
  cases chars : (Text.hex width value).toList with
  | nil => exact absurd chars (Text.toList_hex_ne_nil width value)
  | cons c rest =>
      rw [chars] at digits
      obtain ⟨noRegister, noByte, digit⟩ := digits c List.mem_cons_self
      rw [Look.ofToken, if_neg noRegister, if_neg noByte, if_pos digit]

private theorem ofToken_text (operand : Operand) :
    Look.ofToken operand.text.toList = operand.look := by
  cases operand with
  | register x =>
      rw [text, Instruction.registerText, String.toList_append]
      rfl
  | byte value =>
      rw [text, Instruction.byteText, String.toList_append]
      rfl
  | address target => exact ofToken_hex 3 target.toNat
  | rows count => exact ofToken_hex 1 count.toNat
  | named operand => cases operand <;> decide

theorem whole_text (operand : Operand) : Text.Whole operand.text := by
  cases operand with
  | register x =>
      refine ⟨?_, ?_⟩
      · rw [text, Instruction.registerText, String.toList_append]
        exact List.cons_ne_nil _ _
      · rw [text, Instruction.registerText, String.toList_append]
        exact List.forall_mem_cons.mpr
          ⟨by decide, Text.forall_mem_capitalHex (by decide) x.toNat⟩
  | byte value =>
      refine ⟨?_, ?_⟩
      · rw [text, Instruction.byteText, String.toList_append]
        exact List.cons_ne_nil _ _
      · rw [text, Instruction.byteText, String.toList_append]
        exact List.forall_mem_cons.mpr
          ⟨by decide, Text.forall_mem_hex (by decide) 2 value.toNat⟩
  | address target => exact Text.whole_hex 3 target.toNat
  | rows count => exact Text.whole_hex 1 count.toNat
  | named operand => cases operand <;> decide

theorem printable_text (operand : Operand) : Text.Printable operand.text := by
  cases operand with
  | register x => exact Text.Printable.append (by decide) (Text.printable_capitalHex x.toNat)
  | byte value => exact Text.Printable.append (by decide) (Text.printable_hex 2 value.toNat)
  | address target => exact Text.printable_hex 3 target.toNat
  | rows count => exact Text.printable_hex 1 count.toNat
  | named operand => cases operand <;> decide

end Operand

namespace Instruction

def operands : Instruction → List Operand
  | .bare _ => []
  | .address .jump target => [.address target]
  | .address .call target => [.address target]
  | .address .loadIndex target => [.named .index, .address target]
  | .address .jumpIndexed target => [.register 0, .address target]
  | .byte _ x value => [.register x, .byte value]
  | .pair _ x y => [.register x, .register y]
  | .sprite x y rows => [.register x, .register y, .rows rows]
  | .register .skipHeld x => [.register x]
  | .register .skipReleased x => [.register x]
  | .register .readDelay x => [.register x, .named .delay]
  | .register .awaitKey x => [.register x, .named .key]
  | .register .setDelay x => [.named .delay, .register x]
  | .register .setSound x => [.named .sound, .register x]
  | .register .addIndex x => [.named .index, .register x]
  | .register .glyph x => [.named .glyph, .register x]
  | .register .decimal x => [.named .decimal, .register x]
  | .register .store x => [.named .pointed, .register x]
  | .register .load x => [.register x, .named .pointed]

def joined : List Operand → Option String
  | [] => none
  | first :: others =>
      some (others.foldl (fun text operand => separated text operand.text) first.text)

theorem operandText_eq (instruction : Instruction) :
    instruction.operandText = joined instruction.operands := by
  cases instruction with
  | bare op => rfl
  | address op target => cases op <;> rfl
  | byte op x value => rfl
  | pair op x y => rfl
  | sprite x y rows => rfl
  | register op x => cases op <;> rfl

private theorem tokens_joined (first : String) (others : List Operand) :
    Text.tokens (others.foldl (fun text operand => separated text operand.text) first).toList =
      Text.tokens first.toList ++ others.map fun operand => operand.text.toList := by
  induction others generalizing first with
  | nil => simp
  | cons operand later ih =>
      have gap : (", " : String).toList ++ operand.text.toList =
        ',' :: (List.replicate 1 ' ' ++ operand.text.toList) := rfl
      rw [List.foldl_cons, ih, separated, String.toList_append, String.toList_append,
        List.append_assoc, gap, Text.tokens_append_break _ _ rfl, Text.tokens_blanks,
        Text.tokens_of_whole operand.whole_text, List.append_assoc]
      rfl

end Instruction

/-! ### Opcodes -/

namespace Opcode

def looks (opcode : Opcode) : List Look :=
  (Instruction.ofOperands opcode fun _ => 0).operands.map Operand.look

private theorem eq_of_looks {first second : Opcode} (mnemonic : first.mnemonic = second.mnemonic)
    (looks : first.looks = second.looks) : first = second := by
  have apart : ∀ first ∈ all, ∀ second ∈ all,
      first.mnemonic = second.mnemonic → first.looks = second.looks → first = second := by
    decide +kernel
  exact apart first (mem_all first) second (mem_all second) mnemonic looks

theorem whole_mnemonic (opcode : Opcode) : Text.Whole opcode.mnemonic := by
  have every : ∀ opcode ∈ all, Text.Whole opcode.mnemonic := by decide +kernel
  exact every opcode (mem_all opcode)

private theorem mnemonic_short (opcode : Opcode) : opcode.mnemonic.toList.length < 7 := by
  have every : ∀ opcode ∈ all, opcode.mnemonic.toList.length < 7 := by decide +kernel
  exact every opcode (mem_all opcode)

private theorem printable_mnemonic (opcode : Opcode) : Text.Printable opcode.mnemonic := by
  have every : ∀ opcode ∈ all, Text.Printable opcode.mnemonic := by decide +kernel
  exact every opcode (mem_all opcode)

private theorem mnemonic_head (opcode : Opcode) : opcode.mnemonic.toList.head? ≠ some 'i' := by
  have every : ∀ opcode ∈ all, opcode.mnemonic.toList.head? ≠ some 'i' := by decide +kernel
  exact every opcode (mem_all opcode)

end Opcode

/-! ### Texts of instructions -/

namespace Instruction

variable {first second : Instruction}

private theorem looks_operands (instruction : Instruction) :
    instruction.operands.map Operand.look = instruction.opcode.looks := by
  cases instruction with
  | bare op => rfl
  | address op target => cases op <;> rfl
  | byte op x value => rfl
  | pair op x y => rfl
  | sprite x y rows => rfl
  | register op x => cases op <;> rfl

theorem tokens_text (instruction : Instruction) :
    Text.tokens instruction.text.toList =
      instruction.opcode.mnemonic.toList ::
        instruction.operands.map fun operand => operand.text.toList := by
  have whole := instruction.opcode.whole_mnemonic
  rw [text, operandText_eq]
  cases operands : instruction.operands with
  | nil => exact Text.tokens_of_whole whole
  | cons first others =>
      simp only [joined, String.toList_append]
      rw [Text.tokens_padEnd whole instruction.opcode.mnemonic_short, tokens_joined,
        Text.tokens_of_whole first.whole_text]
      rfl

theorem registerText_injective {first second : UInt64}
    (same : registerText first = registerText second) : first = second :=
  UInt64.toNat.inj (Text.capitalHex_injective ((String.append_right_inj "v").mp same))

theorem byteText_injective {first second : UInt8} (same : byteText first = byteText second) :
    first = second :=
  UInt8.toNat.inj (Text.hex_injective 2 ((String.append_right_inj "#").mp same))

theorem addressText_injective {first second : UInt16}
    (same : addressText first = addressText second) : first = second :=
  UInt16.toNat.inj (Text.hex_injective 3 same)

/-- The opcode tells which operand is which, so that their texts tell the instruction. -/
theorem eq_of_operands (opcode : first.opcode = second.opcode)
    (texts : first.operands.map Operand.text = second.operands.map Operand.text) :
    first = second := by
  cases first with
  | bare op =>
      cases second with
      | bare other =>
          cases opcode
          rfl
      | _ => cases opcode
  | address op target =>
      cases second with
      | address other otherTarget =>
          cases opcode
          have same : addressText target = addressText otherTarget := by
            cases op <;> simpa [operands, Operand.text] using texts
          rw [addressText_injective same]
      | _ => cases opcode
  | byte op x value =>
      cases second with
      | byte other otherX otherValue =>
          cases opcode
          simp only [operands, Operand.text, List.map_cons, List.cons.injEq] at texts
          rw [registerText_injective texts.1, byteText_injective texts.2.1]
      | _ => cases opcode
  | pair op x y =>
      cases second with
      | pair other otherX otherY =>
          cases opcode
          simp only [operands, Operand.text, List.map_cons, List.cons.injEq] at texts
          rw [registerText_injective texts.1, registerText_injective texts.2.1]
      | _ => cases opcode
  | sprite x y rows =>
      cases second with
      | sprite otherX otherY otherRows =>
          simp only [operands, Operand.text, List.map_cons, List.cons.injEq] at texts
          have sameRows : rows = otherRows :=
            UInt8.toNat.inj (Text.hex_injective 1 texts.2.2.1)
          rw [registerText_injective texts.1, registerText_injective texts.2.1, sameRows]
      | _ => cases opcode
  | register op x =>
      cases second with
      | register other otherX =>
          cases opcode
          have same : registerText x = registerText otherX := by
            cases op <;> simpa [operands, Operand.text] using texts
          rw [registerText_injective same]
      | _ => cases opcode

theorem eq_of_text (same : first.text = second.text) : first = second := by
  have tokens := first.tokens_text
  rw [same, second.tokens_text] at tokens
  obtain ⟨mnemonic, operands⟩ := List.cons.inj tokens
  have looks : second.opcode.looks = first.opcode.looks := by
    have looked := congrArg (List.map Look.ofToken) operands
    simpa only [List.map_map, Function.comp_def, Operand.ofToken_text, ← looks_operands]
      using looked
  have opcode := Opcode.eq_of_looks (String.toList_inj.mp mnemonic) looks
  have texts : second.operands.map Operand.text = first.operands.map Operand.text := by
    have written := congrArg (List.map String.ofList) operands
    simpa only [List.map_map, Function.comp_def, String.ofList_toList] using written
  exact (eq_of_operands opcode texts).symm

private theorem printable_joined {text : String} (printable : Text.Printable text)
    (others : List Operand) :
    Text.Printable (others.foldl (fun text operand => separated text operand.text) text) := by
  induction others generalizing text with
  | nil => exact printable
  | cons operand later ih =>
      have gap : Text.Printable ", " := by decide
      exact ih ((printable.append gap).append operand.printable_text)

theorem printable_text (instruction : Instruction) : Text.Printable instruction.text := by
  have mnemonic := instruction.opcode.printable_mnemonic
  rw [text, operandText_eq]
  cases instruction.operands with
  | nil => exact mnemonic
  | cons first others =>
      exact (mnemonic.padEnd 7).append (printable_joined first.printable_text others)

private theorem mnemonic_prefix_text (instruction : Instruction) :
    instruction.opcode.mnemonic.toList <+: instruction.text.toList := by
  rw [text]
  cases instruction.operandText with
  | none => exact List.prefix_rfl
  | some operands =>
      simp only [Text.padEnd, String.toList_append, List.append_assoc]
      exact List.prefix_append _ _

theorem head_text (instruction : Instruction) : instruction.text.toList.head? ≠ some 'i' := by
  obtain ⟨rest, begins⟩ := instruction.mnemonic_prefix_text
  have head := instruction.opcode.mnemonic_head
  rw [← begins]
  cases letters : instruction.opcode.mnemonic.toList with
  | nil => exact absurd letters instruction.opcode.whole_mnemonic.filled
  | cons c others =>
      rw [letters] at head
      exact head

end Instruction

/-! ### Texts of words -/

namespace Disassembler

theorem printable_invalidText (word : UInt16) : Text.Printable (invalidText word) :=
  have mnemonic : Text.Printable "inval" := by decide
  (mnemonic.padEnd 7).append (Text.printable_hex 4 word.toNat)

theorem invalidText_injective {first second : UInt16}
    (same : invalidText first = invalidText second) : first = second :=
  UInt16.toNat.inj (Text.hex_injective 4 ((String.append_right_inj _).mp same))

/-- What a word is written as, without a style. -/
def plainText (word : UInt16) : String :=
  match Instruction.ofWord? word with
  | some instruction => instruction.text
  | none => invalidText word

theorem text_styled (disassembler : Disassembler) (word : UInt16) :
    (disassembler.styled word).text = plainText word := by
  unfold styled plainText
  cases Instruction.ofWord? word with
  | none => rfl
  | some instruction => rfl

private theorem style_styled_plain (word : UInt16) : (plain.styled word).style = .plain := by
  unfold styled
  cases Instruction.ofWord? word with
  | none => rfl
  | some instruction => rfl

theorem printable_plainText (word : UInt16) : Text.Printable (plainText word) := by
  unfold plainText
  cases Instruction.ofWord? word with
  | none => exact printable_invalidText word
  | some instruction => exact instruction.printable_text

theorem inval_prefix_iff {word : UInt16} :
    "inval".toList <+: (plainText word).toList ↔ ∀ opcode : Opcode, ¬ opcode.matchesWord word := by
  rw [← Instruction.ofWord?_eq_none_iff, plainText]
  cases decoded : Instruction.ofWord? word with
  | none =>
      refine iff_of_true ?_ rfl
      simp only [invalidText, Text.padEnd, String.toList_append, List.append_assoc]
      exact List.prefix_append _ _
  | some instruction =>
      refine iff_of_false (fun begins => ?_) nofun
      obtain ⟨rest, spelled⟩ := begins
      exact instruction.head_text (by rw [← spelled]; rfl)

theorem text_ne_invalidText (instruction : Instruction) (word : UInt16) :
    instruction.text ≠ invalidText word := by
  intro same
  apply instruction.head_text
  rw [same, invalidText, Text.padEnd, String.toList_append, String.toList_append]
  rfl

private theorem eq_of_plainText {first second : UInt16}
    (same : plainText first = plainText second) :
    first = second := by
  rw [plainText, plainText] at same
  cases firstDecoded : Instruction.ofWord? first with
  | none =>
      cases secondDecoded : Instruction.ofWord? second with
      | none =>
          simp only [firstDecoded, secondDecoded] at same
          exact invalidText_injective same
      | some instruction =>
          simp only [firstDecoded, secondDecoded] at same
          exact absurd same.symm (text_ne_invalidText instruction first)
  | some instruction =>
      cases secondDecoded : Instruction.ofWord? second with
      | none =>
          simp only [firstDecoded, secondDecoded] at same
          exact absurd same (text_ne_invalidText instruction second)
      | some other =>
          simp only [firstDecoded, secondDecoded] at same
          rw [Instruction.eq_of_text same] at firstDecoded
          exact (Instruction.toWord_of_decoded firstDecoded).symm.trans
            (Instruction.toWord_of_decoded secondDecoded)

section Painted

variable {painter : Text.Painter}

theorem text_plain (lawful : painter.Lawful) (word : UInt16) :
    plain.text painter word = plainText word := by
  rw [text, Text.Styled.painted, style_styled_plain, lawful.plain, text_styled]

theorem shownFrom_text (lawful : painter.Lawful) (disassembler : Disassembler) (word : UInt16)
    (rest : List Char) :
    Text.shownFrom false ((disassembler.text painter word).toList ++ rest) =
      (plainText word).toList ++ Text.shownFrom false rest := by
  have printable : Text.Printable (disassembler.styled word).text := by
    rw [text_styled]
    exact printable_plainText word
  rw [text, Text.Styled.painted, (lawful.paint _).shownFrom_write printable, text_styled]

theorem shown_text (lawful : painter.Lawful) (disassembler : Disassembler) (word : UInt16) :
    Text.shown (disassembler.text painter word) = plainText word :=
  Text.shown_of_shownFrom (shownFrom_text lawful disassembler word)

/-- A text tells what it was written for: an instruction, with operands of any width, or a word,
whatever the disassembler's styles and whoever paints them. No instruction is written like a word
that carries none. -/
theorem texts_tell_apart (lawful : painter.Lawful) :
    Function.Injective Instruction.text ∧
      (∀ disassembler : Disassembler, Function.Injective (disassembler.text painter)) ∧
      ∀ (instruction : Instruction) (word : UInt16), instruction.text ≠ invalidText word := by
  refine ⟨fun _ _ => Instruction.eq_of_text, fun disassembler first second same => ?_,
    text_ne_invalidText⟩
  have visible := congrArg Text.shown same
  rw [shown_text lawful, shown_text lawful] at visible
  exact eq_of_plainText visible

end Painted

/-- On a terminal no two words have one text, in colour or without. The word of a return and the
one behind it, which carries no instruction, are two such words. -/
theorem texts_tell_apart_terminal :
    Text.Painter.terminal.Lawful ∧
      Function.Injective (plain.text .terminal) ∧ Function.Injective (coloured.text .terminal) ∧
      coloured.text .terminal 0x00ee = "\x1b[32mret\x1b[0m" ∧
      coloured.text .terminal 0x00ef = "\x1b[31;1minval  00ef\x1b[0m" := by
  obtain ⟨-, words, -⟩ := texts_tell_apart Text.Painter.lawful_terminal
  exact ⟨Text.Painter.lawful_terminal, words plain, words coloured, by decide +kernel,
    by decide +kernel⟩

end Disassembler

end Chip8
