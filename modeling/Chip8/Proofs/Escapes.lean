import Chip8.Proofs.Numerals
import Chip8.Text.Style

/-!
What a terminal shows of a text. A control sequence begins with the escape character and a
bracket and ends with an `m`; nothing of it is shown. A painter writes control sequences around
a text and nothing else, so what is shown is the text that it was given.
-/

namespace Chip8.Text

def escape : Char := '\x1b'

/-- The characters that are shown of a text; `hidden` tells whether it begins inside a control
sequence. -/
def shownFrom (hidden : Bool) : List Char → List Char
  | [] => []
  | c :: rest =>
      if hidden then shownFrom (c != 'm') rest
      else if c = escape ∧ rest.head? = some '[' then shownFrom true rest
      else c :: shownFrom false rest

/-- The text without its control sequences. -/
def shown (text : String) : String := String.ofList (shownFrom false text.toList)

/-- No control characters, and no characters beyond the seven bits. -/
def Printable (text : String) : Prop := ∀ c ∈ text.toList, ' ' ≤ c ∧ c ≤ '~'

-- the characters of the text are gone through, not all the characters there are
instance (text : String) : Decidable (Printable text) :=
  List.decidableBAll (fun c => ' ' ≤ c ∧ c ≤ '~') text.toList

/-! ### Printable texts -/

theorem Printable.append {first second : String} (left : Printable first)
    (right : Printable second) : Printable (first ++ second) := by
  intro c member
  rw [String.toList_append, List.mem_append] at member
  exact member.elim (left c) (right c)

theorem printable_blanks (count : Nat) :
    Printable (String.ofList (List.replicate count ' ')) := by
  intro c member
  rw [String.toList_ofList] at member
  rw [List.eq_of_mem_replicate member]
  decide

theorem Printable.padEnd {text : String} (printable : Printable text) (width : Nat) :
    Printable (padEnd width text) :=
  printable.append (printable_blanks _)

theorem printable_hex (width value : Nat) : Printable (hex width value) :=
  forall_mem_hex (by decide) width value

theorem printable_decimal (width value : Nat) : Printable (decimal ' ' width value) := by
  intro c member
  rw [decimal, String.toList_ofList, List.leftpad] at member
  rcases List.mem_append.mp member with blank | shown
  · rw [List.eq_of_mem_replicate blank]
    decide
  · obtain ⟨digit, below, rfl⟩ := mem_toDigits (by decide) shown
    have digits : ∀ digit < 10, ' ' ≤ Nat.digitChar digit ∧ Nat.digitChar digit ≤ '~' := by
      decide
    exact digits digit below

theorem printable_capitalHex (value : Nat) : Printable (capitalHex value) :=
  forall_mem_capitalHex (by decide) value

theorem Printable.escape_notMem {text : String} (printable : Printable text) :
    escape ∉ text.toList :=
  fun member => absurd (printable escape member).1 (by decide)

theorem Printable.newline_notMem {text : String} (printable : Printable text) :
    '\n' ∉ text.toList :=
  fun member => absurd (printable '\n' member).1 (by decide)

/-! ### Control sequences -/

theorem shownFrom_append_of_notMem {text : List Char} (plain : escape ∉ text)
    (rest : List Char) : shownFrom false (text ++ rest) = text ++ shownFrom false rest := by
  induction text with
  | nil => rfl
  | cons c later ih =>
      have first : escape ≠ c := List.ne_of_not_mem_cons plain
      have others : escape ∉ later := List.not_mem_of_not_mem_cons plain
      have visible : ¬ (c = escape ∧ (later ++ rest).head? = some '[') :=
        fun begun => first begun.1.symm
      rw [List.cons_append, shownFrom, if_neg Bool.false_ne_true, if_neg visible, ih others,
        List.cons_append]

private theorem shownFrom_true_append {parameters : List Char} (inner : 'm' ∉ parameters)
    (rest : List Char) : shownFrom true (parameters ++ 'm' :: rest) = shownFrom false rest := by
  induction parameters with
  | nil => rfl
  | cons c later ih =>
      have first : 'm' ≠ c := List.ne_of_not_mem_cons inner
      have others : 'm' ∉ later := List.not_mem_of_not_mem_cons inner
      have goesOn : (c != 'm') = true := bne_iff_ne.mpr (Ne.symm first)
      rw [List.cons_append, shownFrom, if_pos rfl, goesOn, ih others]

private theorem shownFrom_control {parameters : String} (inner : 'm' ∉ parameters.toList)
    (rest : List Char) :
    shownFrom false ((control parameters).toList ++ rest) = shownFrom false rest := by
  have bracketed : 'm' ∉ '[' :: parameters.toList :=
    List.not_mem_cons_of_ne_of_not_mem (by decide) inner
  have spelled : (control parameters).toList ++ rest =
      escape :: ('[' :: parameters.toList ++ 'm' :: rest) := by
    simp only [control, String.toList_append, List.append_assoc]
    rfl
  have begins : escape = escape ∧
      ('[' :: parameters.toList ++ 'm' :: rest).head? = some '[' := ⟨rfl, rfl⟩
  rw [spelled, shownFrom, if_neg Bool.false_ne_true, if_pos begins,
    shownFrom_true_append bracketed]

/-! ### Painters -/

def controls (sequences : List String) : String := String.join (sequences.map control)

/-- What stands before and behind a text that is written are control sequences, the same for
every text. -/
def Brackets (write : String → String) : Prop :=
  ∃ before behind : List String,
    (∀ parameters ∈ before ++ behind, 'm' ∉ parameters.toList) ∧
      ∀ text, write text = controls before ++ text ++ controls behind

/-- A style and a colour bracket a text by control sequences, and a style that asks for nothing
writes the text alone. -/
structure Painter.Lawful (painter : Painter) : Prop where
  plain : ∀ text, painter.paint .plain text = text
  paint : ∀ style, Brackets (painter.paint style)
  tint : ∀ colour, Brackets (painter.tint colour)

private theorem m_notMem_parameters (style : Style) :
    'm' ∉ (String.intercalate ";" style.parameters).toList := by
  rcases style with ⟨colour, bold⟩
  rcases colour with _ | colour
  · cases bold <;> decide
  · cases colour <;> cases bold <;> decide

private theorem brackets_one {opening closing : String} (first : 'm' ∉ opening.toList)
    (last : 'm' ∉ closing.toList) :
    Brackets fun text => control opening ++ text ++ control closing := by
  refine ⟨[opening], [closing], ?_, fun text => rfl⟩
  rw [List.singleton_append, List.forall_mem_cons, List.forall_mem_singleton]
  exact ⟨first, last⟩

theorem Painter.lawful_terminal : terminal.Lawful where
  plain := fun text => rfl
  paint := by
    intro style
    have inner := m_notMem_parameters style
    simp only [terminal]
    cases selected : style.parameters with
    | nil =>
        refine ⟨[], [], List.forall_mem_nil _, fun text => ?_⟩
        rw [controls, List.map_nil, String.join_nil, String.empty_append, String.append_empty]
    | cons first others =>
        rw [selected] at inner
        exact brackets_one inner (by decide)
  tint := by
    intro colour
    have inner : 'm' ∉ colour.parameter.toList := by cases colour <;> decide
    exact brackets_one inner (by decide)

private theorem shownFrom_controls {sequences : List String}
    (inner : ∀ parameters ∈ sequences, 'm' ∉ parameters.toList) (rest : List Char) :
    shownFrom false ((controls sequences).toList ++ rest) = shownFrom false rest := by
  induction sequences with
  | nil => rfl
  | cons first others ih =>
      obtain ⟨head, tail⟩ := List.forall_mem_cons.mp inner
      rw [controls, List.map_cons, String.join_cons, String.toList_append, List.append_assoc,
        shownFrom_control head]
      exact ih tail

theorem Brackets.shownFrom_write {write : String → String} (brackets : Brackets write)
    {text : String} (printable : Printable text) (rest : List Char) :
    shownFrom false ((write text).toList ++ rest) = text.toList ++ shownFrom false rest := by
  obtain ⟨before, behind, inner, written⟩ := brackets
  obtain ⟨opening, closing⟩ := List.forall_mem_append.mp inner
  rw [written, String.toList_append, String.toList_append, List.append_assoc, List.append_assoc,
    shownFrom_controls opening, shownFrom_append_of_notMem printable.escape_notMem,
    shownFrom_controls closing]

theorem shown_of_shownFrom {text plain : String}
    (visible : ∀ rest, shownFrom false (text.toList ++ rest) =
      plain.toList ++ shownFrom false rest) :
    shown text = plain := by
  have whole := visible []
  rw [List.append_nil, shownFrom, List.append_nil] at whole
  rw [shown, whole, String.ofList_toList]

end Chip8.Text
