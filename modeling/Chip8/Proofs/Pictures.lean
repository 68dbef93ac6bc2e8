import Mathlib.Data.List.Basic
import Mathlib.Data.Nat.Bitwise
import Mathlib.Tactic.IntervalCases
import Chip8.Screen.Picture
import Chip8.Proofs.Drawing
import Chip8.Proofs.Numerals

/-!
Both pictures of a screen can be read back. A text is cut at its line breaks and a pixel is looked
up in the character that shows it: in one of the eight dots of a character of the dot picture, or
in a character of its own in the block picture. The dot picture is what a canvas shows on which
the lit pixels have been set one by one.
-/

namespace Chip8

/-! ### Lines of a text -/

namespace Text

def isBreakOfLine (c : Char) : Bool := c == '\n'

def lines (text : String) : List (List Char) :=
  (text.toList.splitOnP isBreakOfLine).dropLast

def cell? (text : String) (column line : Nat) : Option Char :=
  (lines text)[line]?.bind fun cells => cells[column]?

/-- A text that consists of lines and nothing after them. -/
structure Lined (text : String) (rows : List (List Char)) : Prop where
  text_eq : text.toList = rows.flatMap fun row => row ++ ['\n']
  unbroken : ∀ row ∈ rows, '\n' ∉ row

private theorem splitOnP_rows {rows : List (List Char)} (unbroken : ∀ row ∈ rows, '\n' ∉ row) :
    (rows.flatMap fun row => row ++ ['\n']).splitOnP isBreakOfLine = rows ++ [[]] := by
  induction rows with
  | nil => rfl
  | cons row rest ih =>
      obtain ⟨here, later⟩ := List.forall_mem_cons.mp unbroken
      have whole : ∀ c ∈ row, isBreakOfLine c = false := by
        intro c member
        exact beq_false_of_ne fun breaks => here (breaks ▸ member)
      have breaks : isBreakOfLine '\n' = true := rfl
      rw [List.flatMap_cons, List.append_assoc, List.singleton_append,
        List.splitOnP_append_cons row _ breaks, List.splitOnP_eq_singleton whole, ih later]
      rfl

theorem Lined.lines_eq {text : String} {rows : List (List Char)} (lined : Lined text rows) :
    lines text = rows := by
  rw [lines, lined.text_eq, splitOnP_rows lined.unbroken, List.dropLast_concat]

private theorem decimal_two {value : Nat} (small : value < 100) :
    (decimal '0' 2 value).toList = [(value / 10).digitChar, (value % 10).digitChar] := by
  rw [decimal, String.toList_ofList]
  by_cases single : value < 10
  · rw [Nat.toDigits_of_lt_base single, Nat.div_eq_of_lt single, Nat.mod_eq_of_lt single]
    rfl
  · have high : value / 10 < 10 := by omega
    rw [Nat.toDigits_of_base_le (by decide) (Nat.le_of_not_lt single),
      Nat.toDigits_of_lt_base high]
    rfl

end Text

namespace Screen

/-! ### Dots of a character -/

def dotBits (cell : Char) : Nat := if cell = ' ' then 0 else cell.toNat - 0x2800

/-- The place of a dot among the bits of its character. -/
def dotPlace (x y : Nat) : Nat := if y < 3 then 3 * x + y else 6 + x

def cellBits (on : Nat → Nat → Bool) (column line : Nat) : Nat :=
  (dots.map fun dot =>
    if on (2 * column + dot.x) (4 * line + dot.y) then dotWeight dot.x dot.y
    else 0).foldr (· + ·) 0

private theorem cellBits_get (screen : Screen) (column line : Nat) :
    cellBits screen.get column line = screen.dotSum column line :=
  rfl

/-- The sum of the weights writes its dots in the order of their places, the last one first. -/
theorem cellBits_eq_value (on : Nat → Nat → Bool) (column line : Nat) :
    cellBits on column line =
      Bits.value ([⟨1, 3⟩, ⟨0, 3⟩, ⟨1, 2⟩, ⟨1, 1⟩, ⟨1, 0⟩, ⟨0, 2⟩, ⟨0, 1⟩, ⟨0, 0⟩].map
        fun dot : Point => on (2 * column + dot.x) (4 * line + dot.y)) := by
  have weighed (weight : Nat) (lit : Bool) : (if lit then weight else 0) = weight * lit.toNat := by
    cases lit
    · rfl
    · rw [if_pos rfl, Bool.toNat_true, Nat.mul_one]
  simp only [cellBits, dots, List.range, List.range.loop, List.flatMap_cons, List.flatMap_nil,
    List.map_cons, List.map_nil, List.cons_append, List.nil_append, List.foldr_cons,
    List.foldr_nil, weighed, dotWeight, Bits.value, Bits.valueFrom, List.foldl_cons,
    List.foldl_nil]
  omega

private theorem dotPlace_lt {x y : Nat} (inColumn : x < 2) : dotPlace x y < 8 := by
  unfold dotPlace
  split <;> omega

theorem exists_dotPlace {place : Nat} (inside : place < 8) :
    ∃ x y, x < 2 ∧ y < 4 ∧ dotPlace x y = place := by
  unfold dotPlace
  by_cases upper : place < 6
  · have line : place % 3 < 3 := Nat.mod_lt _ (Nat.succ_pos 2)
    refine ⟨place / 3, place % 3, by omega, by omega, ?_⟩
    rw [if_pos line, Nat.div_add_mod]
  · refine ⟨place - 6, 3, by omega, by omega, ?_⟩
    rw [if_neg (Nat.lt_irrefl 3)]
    omega

theorem dotPlace_injective {x y otherX otherY : Nat} (inColumn : x < 2) (inRow : y < 4)
    (otherInColumn : otherX < 2) (otherInRow : otherY < 4)
    (same : dotPlace x y = dotPlace otherX otherY) : x = otherX ∧ y = otherY := by
  unfold dotPlace at same
  split at same <;> split at same <;> omega

theorem dotWeight_eq {x y : Nat} (inColumn : x < 2) (inRow : y < 4) :
    dotWeight x y = 2 ^ dotPlace x y := by
  interval_cases x <;> interval_cases y <;> rfl

theorem testBit_cellBits (on : Nat → Nat → Bool) (column line : Nat) {x y : Nat}
    (inColumn : x < 2) (inRow : y < 4) :
    (cellBits on column line).testBit (dotPlace x y) = on (2 * column + x) (4 * line + y) := by
  rw [cellBits_eq_value, Bits.testBit_value]
  interval_cases x <;> interval_cases y <;> rfl

theorem testBit_cellBits_of_le (on : Nat → Nat → Bool) (column line : Nat) {place : Nat}
    (outside : 8 ≤ place) : (cellBits on column line).testBit place = false := by
  rw [cellBits_eq_value, Bits.testBit_value]
  exact Bool.and_eq_false_imp.mpr fun inside =>
    absurd (of_decide_eq_true inside) (Nat.not_lt_of_le outside)

theorem cellBits_lt (on : Nat → Nat → Bool) (column line : Nat) :
    cellBits on column line < 256 :=
  Nat.lt_pow_two_of_testBit (n := 8) _ fun _ outside =>
    testBit_cellBits_of_le on column line outside

private theorem toNat_dotCharacter {sum : Nat} (lit : sum ≠ 0) (small : sum < 256) :
    (dotCharacter sum).toNat = 0x2800 + sum := by
  have valid : (0x2800 + sum).isValidChar := by
    left
    omega
  have made : Char.ofNat (0x2800 + sum) = Char.ofNatAux (0x2800 + sum) valid := dif_pos valid
  rw [dotCharacter, if_neg lit, made]
  rfl

theorem dotBits_dotCharacter {sum : Nat} (small : sum < 256) :
    dotBits (dotCharacter sum) = sum := by
  by_cases dark : sum = 0
  · rw [dark]
    rfl
  · have shown := toNat_dotCharacter dark small
    have marked : dotCharacter sum ≠ ' ' := by
      intro blank
      rw [blank] at shown
      have space : ' '.toNat = 32 := rfl
      omega
    rw [dotBits, if_neg marked, shown, Nat.add_sub_cancel_left]

/-! ### The dot picture -/

def dotRows (screen : Screen) : List (List Char) :=
  (List.range 9).map fun line => (List.range 33).map fun column =>
    dotCharacter (screen.dotSum column line)

private theorem dotCharacter_ne_break {sum : Nat} (small : sum < 256) :
    dotCharacter sum ≠ '\n' := by
  intro breaks
  have bits := dotBits_dotCharacter small
  rw [breaks, show dotBits '\n' = 0 from rfl] at bits
  rw [← bits] at breaks
  exact absurd breaks (by decide)

private theorem toList_intercalate_break (row : String) (rest : List String) :
    ("\n".intercalate (row :: rest) ++ "\n").toList =
      (row :: rest).flatMap fun line => line.toList ++ ['\n'] := by
  induction rest generalizing row with
  | nil => simp
  | cons next rest ih =>
      rw [String.intercalate_cons_cons, String.append_assoc, String.append_assoc,
        String.toList_append, String.toList_append, ih next, List.flatMap_cons]
      simp

theorem lined_dotPicture (screen : Screen) :
    Text.Lined (screen.dotPicture ++ "\n") screen.dotRows where
  text_eq := by
    have ended := toList_intercalate_break (screen.dotLine 0)
      ((List.range' 1 8).map screen.dotLine)
    have rows : screen.dotRows =
        (screen.dotLine 0 :: (List.range' 1 8).map screen.dotLine).map String.toList := by
      rw [← List.map_cons, List.map_map]
      exact List.map_congr_left fun line _ => String.toList_ofList.symm
    rw [rows, List.flatMap_map]
    exact ended
  unbroken := by
    intro row member breaks
    obtain ⟨line, -, rfl⟩ := List.mem_map.mp member
    obtain ⟨column, -, same⟩ := List.mem_map.mp breaks
    exact dotCharacter_ne_break (cellBits_lt screen.get column line) same

theorem cell?_dotPicture (screen : Screen) {column line : Nat} (inColumn : column < 33)
    (inLine : line < 9) :
    Text.cell? (screen.dotPicture ++ "\n") column line =
      some (dotCharacter (screen.dotSum column line)) := by
  rw [Text.cell?, (lined_dotPicture screen).lines_eq, dotRows, List.getElem?_map,
    List.getElem?_range inLine, Option.map_some, Option.bind_some, List.getElem?_map,
    List.getElem?_range inColumn, Option.map_some]

theorem dotSum_eq_zero (screen : Screen) {column line : Nat}
    (outside : 32 ≤ column ∨ 8 ≤ line) : screen.dotSum column line = 0 := by
  apply Nat.zero_of_testBit_eq_false
  intro place
  by_cases inside : place < 8
  · obtain ⟨x, y, inColumn, inRow, rfl⟩ := exists_dotPlace inside
    rw [← cellBits_get, testBit_cellBits _ _ _ inColumn inRow]
    rcases outside with right | below
    · exact get_eq_false_of_width_le screen _ (by simp only [width]; omega)
    · exact get_eq_false_of_height_le screen _ (by simp only [height]; omega)
  · exact testBit_cellBits_of_le screen.get column line (Nat.le_of_not_lt inside)

/-! ### The block picture -/

def block (lit : Bool) : Char := if lit then '█' else ' '

theorem toList_blocks (row : BitVec 64) :
    (blocks row).toList = (List.range width).map fun x => block (row.getMsbD x) := by
  have digit (lit : Bool) :
      (if (if lit.toNat.digitChar = '0' then ' ' else lit.toNat.digitChar) = '1' then '█'
        else if lit.toNat.digitChar = '0' then ' ' else lit.toNat.digitChar) = block lit := by
    cases lit <;> rfl
  rw [blocks, exchange, exchange, String.toList_map, String.toList_map, width,
    Text.toList_binary row.isLt, List.map_map, List.map_map]
  apply List.map_congr_left
  intro x member
  have inside : x < 64 := List.mem_range.mp member
  rw [BitVec.getMsbD_eq_getLsbD, decide_eq_true inside, Bool.true_and]
  exact digit _

def blockRow (screen : Screen) (y : Nat) : List Char :=
  [(y / 10).digitChar, (y % 10).digitChar, '|'] ++
    (List.range width).map (fun x => block (screen.get x y)) ++ ['|']

private theorem toList_blockLine (screen : Screen) {y : Nat} (inRow : y < height) :
    (screen.blockLine y).toList = screen.blockRow y ++ ['\n'] := by
  have small : y < 100 := Nat.lt_trans inRow (by decide)
  simp [blockLine, blockRow, Text.decimal_two small, toList_blocks, get]

theorem lined_blockPicture (screen : Screen) :
    Text.Lined screen.blockPicture ((List.range height).map screen.blockRow) where
  text_eq := by
    rw [blockPicture, String.toList_join, List.flatMap_map, List.flatMap_map]
    apply List.flatMap_congr
    intro y member
    exact toList_blockLine screen (List.mem_range.mp member)
  unbroken := by
    intro row member breaks
    have digits : ∀ digit < 10, digit.digitChar ≠ '\n' := by decide
    have blocks (lit : Bool) : block lit ≠ '\n' := by
      cases lit <;> decide
    obtain ⟨y, inRow, rfl⟩ := List.mem_map.mp member
    have small : y < 100 := Nat.lt_trans (List.mem_range.mp inRow) (by decide)
    simp only [blockRow, List.cons_append, List.nil_append, List.mem_cons, List.mem_append,
      List.mem_map, List.not_mem_nil, or_false] at breaks
    rcases breaks with tens | ones | bar | ⟨x, -, pixel⟩ | bar
    · exact digits (y / 10) (by omega) tens.symm
    · exact digits (y % 10) (by omega) ones.symm
    · exact absurd bar (by decide)
    · exact blocks _ pixel
    · exact absurd bar (by decide)

end Screen

/-! ### Canvases -/

/-- A surface on which pixels are set one at a time, and which is shown as text. -/
structure Canvas where
  State : Type
  fresh : Nat → Nat → State
  set : State → Nat → Nat → State
  frame : State → String

namespace Canvas

def after (canvas : Canvas) (points : List Point) : canvas.State :=
  points.foldl (fun state point => canvas.set state point.x point.y)
    (canvas.fresh Screen.width Screen.height)

/-- A frame shows two by four pixels in each character: a space if none of them is set, and the
dots of those that are set otherwise. It has one character more than the pixels fill in each
line, and one line more. -/
structure Lawful (canvas : Canvas) : Prop where
  frame_after : ∀ points : List Point,
    (∀ point ∈ points, point.x < Screen.width ∧ point.y < Screen.height) →
    canvas.frame (canvas.after points) =
      "\n".intercalate ((List.range 9).map fun line =>
        String.ofList ((List.range 33).map fun column =>
          Screen.dotCharacter
            (Screen.cellBits (fun x y => decide (⟨x, y⟩ ∈ points)) column line)))

end Canvas

namespace Screen

def litInOrder (screen : Screen) : List Point :=
  (List.range height).flatMap fun y =>
    ((List.range width).filter fun x => screen.get x y).map fun x => ⟨x, y⟩

/-- The lit pixels are set on a fresh canvas, and its frame is printed as a line. -/
def printedOn (canvas : Canvas) (screen : Screen) : String :=
  canvas.frame (canvas.after screen.litInOrder) ++ "\n"

theorem mem_litInOrder_iff {screen : Screen} {point : Point} :
    point ∈ screen.litInOrder ↔ screen.get point.x point.y = true := by
  simp only [litInOrder, List.mem_flatMap, List.mem_map, List.mem_filter, List.mem_range]
  constructor
  · rintro ⟨y, -, x, ⟨-, lit⟩, rfl⟩
    exact lit
  · intro lit
    obtain ⟨inColumn, inRow⟩ := onScreen_of_get lit
    exact ⟨point.y, inRow, point.x, ⟨inColumn, lit⟩, rfl⟩

theorem printedOn_eq {canvas : Canvas} (lawful : canvas.Lawful) (screen : Screen) :
    screen.printedOn canvas = screen.dotPicture ++ "\n" := by
  have inside : ∀ point ∈ screen.litInOrder, point.x < width ∧ point.y < height :=
    fun point member => onScreen_of_get (mem_litInOrder_iff.mp member)
  have on : (fun x y => decide (⟨x, y⟩ ∈ screen.litInOrder)) = screen.get := by
    funext x y
    exact Bool.eq_iff_iff.mpr (decide_eq_true_iff.trans mem_litInOrder_iff)
  rw [printedOn, lawful.frame_after _ inside, on]
  rfl

end Screen

namespace Canvas

/-! ### A canvas made of cells -/

structure Cells where
  columns : Nat
  lines : Nat
  bits : Nat → Nat → Nat

def Cells.set (cells : Cells) (x y : Nat) : Cells :=
  { cells with bits := fun column line =>
      if column = x / 2 ∧ line = y / 4 then
        cells.bits column line ||| Screen.dotWeight (x % 2) (y % 4)
      else cells.bits column line }

def Cells.frame (cells : Cells) : String :=
  "\n".intercalate ((List.range (cells.lines + 1)).map fun line =>
    String.ofList ((List.range (cells.columns + 1)).map fun column =>
      Screen.dotCharacter (cells.bits column line)))

def celled : Canvas where
  State := Cells
  fresh := fun width height => ⟨width / 2, height / 4, fun _ _ => 0⟩
  set := Cells.set
  frame := Cells.frame

def Shows (column line place : Nat) (point : Point) : Prop :=
  point.x / 2 = column ∧ point.y / 4 = line ∧
    Screen.dotPlace (point.x % 2) (point.y % 4) = place

private theorem shows_iff {column line x y : Nat} {point : Point} (inColumn : x < 2)
    (inRow : y < 4) :
    Shows column line (Screen.dotPlace x y) point ↔
      point = ⟨2 * column + x, 4 * line + y⟩ := by
  rcases point with ⟨pointX, pointY⟩
  simp only [Shows, Point.mk.injEq]
  constructor
  · rintro ⟨inChar, inLine, same⟩
    obtain ⟨sameX, sameY⟩ := Screen.dotPlace_injective (Nat.mod_lt _ (Nat.succ_pos 1))
      (Nat.mod_lt _ (Nat.succ_pos 3)) inColumn inRow same
    omega
  · rintro ⟨rfl, rfl⟩
    have first : (2 * column + x) % 2 = x := by omega
    have second : (4 * line + y) % 4 = y := by omega
    rw [first, second]
    omega

private theorem place_lt_of_shows {column line place : Nat} {point : Point}
    (shows : Shows column line place point) : place < 8 :=
  shows.2.2 ▸ Screen.dotPlace_lt (Nat.mod_lt _ (Nat.succ_pos 1))

private theorem Cells.testBit_set (cells : Cells) (point : Point) (column line place : Nat) :
    ((cells.set point.x point.y).bits column line).testBit place = true ↔
      (cells.bits column line).testBit place = true ∨ Shows column line place point := by
  have inColumn : point.x % 2 < 2 := Nat.mod_lt _ (Nat.succ_pos 1)
  have inRow : point.y % 4 < 4 := Nat.mod_lt _ (Nat.succ_pos 3)
  by_cases here : column = point.x / 2 ∧ line = point.y / 4
  · obtain ⟨rfl, rfl⟩ := here
    simp [Cells.set, Shows, Nat.testBit_or, Screen.dotWeight_eq inColumn inRow,
      Nat.testBit_two_pow]
  · have elsewhere : ¬ Shows column line place point :=
      fun shows => here ⟨shows.1.symm, shows.2.1.symm⟩
    simp [Cells.set, here, elsewhere]

private theorem Cells.testBit_foldl (points : List Point) (cells : Cells)
    (column line place : Nat) :
    ((points.foldl (fun state point => state.set point.x point.y) cells).bits
        column line).testBit place = true ↔
      (cells.bits column line).testBit place = true ∨
        ∃ point ∈ points, Shows column line place point := by
  induction points generalizing cells with
  | nil => simp
  | cons point rest ih =>
      rw [List.foldl_cons, ih, Cells.testBit_set, or_assoc, List.exists_mem_cons_iff]

private theorem Cells.size_foldl (points : List Point) (cells : Cells) :
    (points.foldl (fun state point => state.set point.x point.y) cells).columns =
        cells.columns ∧
      (points.foldl (fun state point => state.set point.x point.y) cells).lines =
        cells.lines := by
  induction points generalizing cells with
  | nil => exact ⟨rfl, rfl⟩
  | cons point rest ih => exact ih (cells.set point.x point.y)

/-- Setting pixels one by one leaves in each character the bits of those that are set. -/
theorem celled_bits (points : List Point) (column line : Nat) :
    (celled.after points : Cells).bits column line =
      Screen.cellBits (fun x y => decide (⟨x, y⟩ ∈ points)) column line := by
  apply Nat.eq_of_testBit_eq
  intro place
  rw [Bool.eq_iff_iff]
  have marked := Cells.testBit_foldl points ⟨32, 8, fun _ _ => 0⟩ column line place
  refine marked.trans ?_
  simp only [Nat.zero_testBit, Bool.false_eq_true, false_or]
  by_cases inside : place < 8
  · obtain ⟨x, y, inColumn, inRow, rfl⟩ := Screen.exists_dotPlace inside
    simp only [shows_iff inColumn inRow, exists_eq_right,
      Screen.testBit_cellBits _ _ _ inColumn inRow, decide_eq_true_iff]
  · rw [Screen.testBit_cellBits_of_le _ _ _ (Nat.le_of_not_lt inside)]
    refine iff_of_false ?_ Bool.false_ne_true
    rintro ⟨point, -, shows⟩
    exact inside (place_lt_of_shows shows)

theorem lawful_celled : celled.Lawful where
  frame_after := by
    intro points _
    obtain ⟨columns, lines⟩ := Cells.size_foldl points ⟨32, 8, fun _ _ => 0⟩
    have frame : celled.frame (celled.after points) =
        "\n".intercalate ((List.range ((celled.after points : Cells).lines + 1)).map fun line =>
          String.ofList ((List.range ((celled.after points : Cells).columns + 1)).map
            fun column => Screen.dotCharacter
              ((celled.after points : Cells).bits column line))) := rfl
    have width : (celled.after points : Cells).columns = 32 := columns
    have height : (celled.after points : Cells).lines = 8 := lines
    rw [frame, width, height]
    simp only [celled_bits]

end Canvas

namespace Screen

/-! ### Reading the pictures -/

def dotOn (cell : Char) (x y : Nat) : Bool := dotBits cell &&& dotWeight x y != 0

private theorem dotOn_dotCharacter (on : Nat → Nat → Bool) (column line : Nat) {x y : Nat}
    (inColumn : x < 2) (inRow : y < 4) :
    dotOn (dotCharacter (cellBits on column line)) x y =
      on (2 * column + x) (4 * line + y) := by
  rw [dotOn, dotBits_dotCharacter (cellBits_lt on column line), dotWeight_eq inColumn inRow,
    Nat.and_two_pow, testBit_cellBits on column line inColumn inRow]
  cases on (2 * column + x) (4 * line + y) <;> simp

/-- The screen that a dot picture shows. -/
def readDots (text : String) : Screen :=
  ofPixels fun x y =>
    (Text.cell? text (x / 2) (y / 4)).any fun cell => dotOn cell (x % 2) (y % 4)

def readBlocks (text : String) : Screen :=
  ofPixels fun x y => Text.cell? text (3 + x) y == some '█'

/-- A text of nine lines of thirty-three characters that shows a screen in dots. -/
structure ShowsDots (text : String) (screen : Screen) : Prop where
  ended : text.toList = (Text.lines text).flatMap fun line => line ++ ['\n']
  lines : (Text.lines text).length = 9
  columns : ∀ line ∈ Text.lines text, line.length = 33
  cells : ∀ line ∈ Text.lines text, ∀ cell ∈ line,
    cell = ' ' ∨ ∃ bits, 0 < bits ∧ bits < 256 ∧ cell = Char.ofNat (0x2800 + bits)
  pixel : ∀ x y, x < width → y < height →
    ∃ cell, Text.cell? text (x / 2) (y / 4) = some cell ∧
      (screen.get x y = true ↔ dotBits cell &&& dotWeight (x % 2) (y % 4) ≠ 0)
  lastLine : ∀ column < 33, Text.cell? text column 8 = some ' '
  lastColumn : ∀ line < 9, Text.cell? text 32 line = some ' '

/-- A text of thirty-two numbered lines that shows a screen in blocks. -/
structure ShowsBlocks (text : String) (screen : Screen) : Prop where
  ended : text.toList = (Text.lines text).flatMap fun line => line ++ ['\n']
  lines : (Text.lines text).length = 32
  line : ∀ y < height, (Text.lines text)[y]? =
    some ([(y / 10).digitChar, (y % 10).digitChar, '|'] ++
      (List.range width).map (fun x => if screen.get x y = true then '█' else ' ') ++ ['|'])

theorem ShowsDots.readDots_eq {text : String} {screen : Screen} (shows : ShowsDots text screen) :
    readDots text = screen := by
  apply ext_get
  intro x y inColumn inRow
  obtain ⟨cell, place, lit⟩ := shows.pixel x y inColumn inRow
  rw [readDots, get_ofPixels _ inColumn inRow, place, Option.any_some, dotOn]
  exact Bool.eq_iff_iff.mpr (bne_iff_ne.trans lit.symm)

theorem ShowsBlocks.readBlocks_eq {text : String} {screen : Screen}
    (shows : ShowsBlocks text screen) : readBlocks text = screen := by
  apply ext_get
  intro x y inColumn inRow
  have numbered : ([(y / 10).digitChar, (y % 10).digitChar, '|'] : List Char).length = 3 := rfl
  have inBlocks : x < ((List.range width).map fun x =>
      if screen.get x y = true then '█' else ' ').length := by
    rw [List.length_map, List.length_range]
    exact inColumn
  have shown : Text.cell? text (3 + x) y = some (if screen.get x y = true then '█' else ' ') := by
    rw [Text.cell?, shows.line y inRow, Option.bind_some, List.append_assoc,
      List.getElem?_append_right (numbered ▸ Nat.le_add_right 3 x), numbered,
      Nat.add_sub_cancel_left, List.getElem?_append_left inBlocks, List.getElem?_map,
      List.getElem?_range inColumn, Option.map_some]
  rw [readBlocks, get_ofPixels _ inColumn inRow, shown]
  cases screen.get x y <;> rfl

private theorem cell?_of_pixel (screen : Screen) {x y : Nat} (inColumn : x < width)
    (inRow : y < height) :
    Text.cell? (screen.dotPicture ++ "\n") (x / 2) (y / 4) =
        some (dotCharacter (cellBits screen.get (x / 2) (y / 4))) ∧
      dotOn (dotCharacter (cellBits screen.get (x / 2) (y / 4))) (x % 2) (y % 4) =
        screen.get x y := by
  simp only [width, height] at inColumn inRow
  have column : 2 * (x / 2) + x % 2 = x := Nat.div_add_mod x 2
  have line : 4 * (y / 4) + y % 4 = y := Nat.div_add_mod y 4
  refine ⟨cell?_dotPicture screen (by omega) (by omega), ?_⟩
  rw [dotOn_dotCharacter screen.get _ _ (Nat.mod_lt _ (Nat.succ_pos 1))
    (Nat.mod_lt _ (Nat.succ_pos 3)), column, line]

theorem showsDots_dotPicture (screen : Screen) :
    ShowsDots (screen.dotPicture ++ "\n") screen where
  ended := by
    rw [(lined_dotPicture screen).lines_eq]
    exact (lined_dotPicture screen).text_eq
  lines := by
    rw [(lined_dotPicture screen).lines_eq, dotRows, List.length_map, List.length_range]
  columns := by
    rw [(lined_dotPicture screen).lines_eq]
    intro row member
    obtain ⟨line, -, rfl⟩ := List.mem_map.mp member
    rw [List.length_map, List.length_range]
  cells := by
    rw [(lined_dotPicture screen).lines_eq]
    intro row rowMember cell member
    obtain ⟨line, -, rfl⟩ := List.mem_map.mp rowMember
    obtain ⟨column, -, rfl⟩ := List.mem_map.mp member
    by_cases dark : screen.dotSum column line = 0
    · exact Or.inl (if_pos dark)
    · exact Or.inr ⟨_, Nat.pos_of_ne_zero dark, cellBits_lt screen.get column line, if_neg dark⟩
  pixel := by
    intro x y inColumn inRow
    obtain ⟨shown, lit⟩ := cell?_of_pixel screen inColumn inRow
    exact ⟨_, shown, by rw [← lit, dotOn, bne_iff_ne]⟩
  lastLine := by
    intro column inColumn
    rw [cell?_dotPicture screen inColumn (by omega),
      dotSum_eq_zero screen (Or.inr (Nat.le_refl 8))]
    rfl
  lastColumn := by
    intro line inLine
    rw [cell?_dotPicture screen (by omega) inLine,
      dotSum_eq_zero screen (Or.inl (Nat.le_refl 32))]
    rfl

theorem showsBlocks_blockPicture (screen : Screen) :
    ShowsBlocks screen.blockPicture screen where
  ended := by
    rw [(lined_blockPicture screen).lines_eq]
    exact (lined_blockPicture screen).text_eq
  lines := by
    rw [(lined_blockPicture screen).lines_eq, List.length_map, List.length_range, height]
  line := by
    intro y inRow
    rw [(lined_blockPicture screen).lines_eq, List.getElem?_map, List.getElem?_range inRow]
    rfl

/-- On any canvas that frames its pixels by two and four, what is printed for a screen is a picture
of it in dots, and its text is a picture of it in blocks. A screen is read back from either
picture, so each of them tells all screens apart, and the two agree. -/
theorem pictures_show_screen {canvas : Canvas} (lawful : canvas.Lawful) :
    (∀ screen : Screen,
      screen.printedOn canvas = screen.dotPicture ++ "\n" ∧
      ShowsDots (screen.printedOn canvas) screen ∧
      ShowsBlocks screen.blockPicture screen ∧
      readDots (screen.printedOn canvas) = screen ∧
      readBlocks screen.blockPicture = screen) ∧
    ∀ left right : Screen,
      (left.printedOn canvas = right.printedOn canvas → left = right) ∧
      (left.blockPicture = right.blockPicture → left = right) ∧
      (readDots (left.printedOn canvas) = readBlocks right.blockPicture → left = right) := by
  have dotted (screen : Screen) : ShowsDots (screen.printedOn canvas) screen := by
    rw [printedOn_eq lawful]
    exact showsDots_dotPicture screen
  constructor
  · intro screen
    have blocks := showsBlocks_blockPicture screen
    exact ⟨printedOn_eq lawful screen, dotted screen, blocks, (dotted screen).readDots_eq,
      blocks.readBlocks_eq⟩
  · intro left right
    refine ⟨?_, ?_, ?_⟩
    · intro same
      rw [← (dotted left).readDots_eq, same, (dotted right).readDots_eq]
    · intro same
      rw [← (showsBlocks_blockPicture left).readBlocks_eq, same,
        (showsBlocks_blockPicture right).readBlocks_eq]
    · intro same
      rwa [(dotted left).readDots_eq, (showsBlocks_blockPicture right).readBlocks_eq] at same

def corner : Screen := blank.toggle ⟨63, 31⟩

theorem pictures_show_corner :
    Canvas.celled.Lawful ∧
    (∃ cell, Text.cell? (corner.printedOn Canvas.celled) 31 7 = some cell ∧
      dotBits cell &&& 0x80 ≠ 0) ∧
    readDots (corner.printedOn Canvas.celled) = readBlocks corner.blockPicture ∧
    corner.printedOn Canvas.celled ≠ blank.printedOn Canvas.celled ∧
    corner.blockPicture ≠ blank.blockPicture := by
  obtain ⟨each, both⟩ := pictures_show_screen Canvas.lawful_celled
  obtain ⟨-, dotted, -, dots, blocks⟩ := each corner
  obtain ⟨fromDots, fromBlocks, -⟩ := both corner blank
  have lit : corner.get 63 31 = true := by
    rw [corner, get_toggle, get_blank]
    rfl
  have apart : corner ≠ blank := by
    intro same
    rw [same, get_blank] at lit
    cases lit
  obtain ⟨cell, place, shown⟩ := dotted.pixel 63 31 (by decide) (by decide)
  exact ⟨Canvas.lawful_celled, ⟨cell, place, shown.mp lit⟩, dots.trans blocks.symm,
    mt fromDots apart, mt fromBlocks apart⟩

end Screen

end Chip8
