import Chip8.CommandLine.Lister
import Chip8.Proofs.AssemblyText

/-!
A listing has a row for each whole word of the file, in order, and its last column alone gives
the bytes back. In colour it shows the same rows. The first address and the offset are those that
the command line gives, or their defaults.
-/

namespace Chip8

/-! ### Rows -/

namespace Listing

variable {painter : Text.Painter} {address offset : Nat} {contents : List UInt8}

def row (address : Nat) (word : UInt16) : String :=
  Text.hex 3 address ++ ": " ++ Disassembler.plainText word ++ " " ++ Text.hex 4 word.toNat

def lastFour (text : String) : List Char := text.toList.drop (text.toList.length - 4)

def rows (address offset : Nat) (contents : List UInt8) : List String :=
  (words (contents.drop offset)).mapIdx fun count word => row (address + offset + 2 * count) word

private theorem map_mapIdx {α β γ : Type} (place : Nat → α → β) (change : β → γ) (items : List α) :
    (items.mapIdx place).map change = items.mapIdx fun count item => change (place count item) :=
  List.ext_getElem (by simp only [List.length_map, List.length_mapIdx]) fun count _ _ => by
    simp only [List.getElem_map, List.getElem_mapIdx]

private theorem flatMap_mapIdx {α β γ : Type} {place : Nat → α → β} {view : β → List γ}
    {only : α → List γ} (same : ∀ count item, view (place count item) = only item)
    (items : List α) : (items.mapIdx place).flatMap view = items.flatMap only := by
  induction items generalizing place with
  | nil => rfl
  | cons item later ih =>
      rw [List.mapIdx_cons, List.flatMap_cons, List.flatMap_cons, same,
        ih fun count => same (count + 1)]

private theorem length_words (bytes : List UInt8) : (words bytes).length = bytes.length / 2 := by
  fun_induction words bytes with
  | case1 high low rest ih =>
      simp only [List.length_cons, ih]
      omega
  | case2 bytes short =>
      rcases bytes with _ | ⟨high, _ | ⟨low, rest⟩⟩
      · rfl
      · simp
      · exact absurd rfl (short high low rest)

private theorem toNat_words (bytes : List UInt8) {count : Nat}
    (inside : count < (words bytes).length) :
    (words bytes)[count].toNat =
      256 * (bytes.getD (2 * count) 0).toNat + (bytes.getD (2 * count + 1) 0).toNat := by
  fun_induction words bytes generalizing count with
  | case1 high low rest ih =>
      cases count with
      | zero => exact Word.toNat_ofBytes high low
      | succ count => exact ih (Nat.lt_of_succ_lt_succ inside)
  | case2 bytes short => exact absurd inside (Nat.not_lt_zero count)

private theorem linesFrom_eq (painter : Text.Painter) (coloured : Bool) (address : Nat)
    (words : List UInt16) :
    linesFrom painter coloured address words =
      words.mapIdx fun count word => line painter coloured (address + 2 * count) word := by
  induction words generalizing address with
  | nil => rfl
  | cons word rest ih =>
      have later (count : Nat) : address + 2 + 2 * count = address + 2 * (count + 1) := by omega
      simp only [linesFrom, ih, List.mapIdx_cons, Nat.mul_zero, Nat.add_zero, later]

theorem line_plain (lawful : painter.Lawful) (address : Nat) (word : UInt16) :
    line painter false address word = row address word ++ "\n" := by
  have plain : (disassembler false).text painter word = Disassembler.plainText word :=
    Disassembler.text_plain lawful word
  rw [line, plain]
  rfl

theorem lines_plain (lawful : painter.Lawful) (address offset : Nat) (contents : List UInt8) :
    lines painter false address offset contents =
      (rows address offset contents).map (· ++ "\n") := by
  simp only [lines, linesFrom_eq, rows, map_mapIdx, line_plain lawful]

theorem printable_row (address : Nat) (word : UInt16) : Text.Printable (row address word) := by
  have colon : Text.Printable ": " := by decide
  have blank : Text.Printable " " := by decide
  exact ((((Text.printable_hex 3 address).append colon).append
    (Disassembler.printable_plainText word)).append blank).append
    (Text.printable_hex 4 word.toNat)

/-! ### The last column -/

private theorem lastFour_row (address : Nat) (word : UInt16) :
    lastFour (row address word) = (Text.hex 4 word.toNat).toList := by
  have four : (Text.hex 4 word.toNat).toList.length = 4 := by
    have narrow : (Nat.toDigits 16 word.toNat).length ≤ 4 :=
      (Nat.length_toDigits_le_iff (by decide) (by decide)).mpr word.toNat_lt
    rw [Text.length_hex]
    exact Nat.max_eq_left narrow
  rw [lastFour, row, String.toList_append, List.length_append, four, Nat.add_sub_cancel,
    List.drop_left]

private theorem hexBytes_words (bytes : List UInt8) :
    ((words bytes).flatMap fun word => (Text.hex 4 word.toNat).toList) =
      (Text.hexBytes (bytes.take (2 * (words bytes).length))).toList := by
  fun_induction words bytes with
  | case1 high low rest ih =>
      have twice : 2 * ((words rest).length + 1) = 2 * (words rest).length + 1 + 1 := by omega
      rw [List.flatMap_cons, ih, Word.toNat_ofBytes, Text.toList_hex_four, List.length_cons,
        twice, List.take_succ_cons, List.take_succ_cons]
      simp only [Text.hexBytes, List.map_cons, String.join_cons, String.toList_append,
        List.append_assoc]
  | case2 bytes short => rfl

/-! ### A whole listing -/

/-- What the rows of a listing are: how many, what stands in each, that each is one line, and
that the bytes can be read from their last column. Both bytes of each word lie in the file, so
that no address of a row goes far beyond its length. -/
structure Lists (address offset : Nat) (contents : List UInt8) (rows : List String) : Prop where
  length : rows.length =
    if offset ≤ contents.length then (contents.length - offset) / 2 else 0
  within : ∀ count < rows.length, offset + 2 * count + 1 < contents.length
  row : ∀ count, (inside : count < rows.length) → ∃ word : UInt16,
    word.toNat = 256 * (contents.getD (offset + 2 * count) 0).toNat +
        (contents.getD (offset + 2 * count + 1) 0).toNat ∧
      rows[count] = Text.hex 3 (address + offset + 2 * count) ++ ": " ++
        Disassembler.plainText word ++ " " ++ Text.hex 4 word.toNat ∧
      ("inval".toList <+: (Disassembler.plainText word).toList ↔
        ∀ opcode : Opcode, ¬ opcode.matchesWord word)
  unbroken : ∀ text ∈ rows, '\n' ∉ text.toList
  bytes : Text.bytesOf? (rows.flatMap lastFour) =
    some ((contents.drop offset).take (2 * rows.length))

/-- The sum of machine words that gives the address of a row does not wrap, as no file in memory
is longer than the signed words can count. -/
theorem Lists.toNat_address {rows : List String} (lists : Lists address offset contents rows)
    (low : address < UInt16.size) (held : contents.length < 2 ^ 63) {count : Nat}
    (inside : count < rows.length) :
    (UInt64.ofNat address + UInt64.ofNat offset + 2 * UInt64.ofNat count).toNat =
      address + offset + 2 * count := by
  have bound := lists.within count inside
  have small : address < 2 ^ 16 := low
  have few : 2 * count < 2 ^ 64 := by omega
  have number : (UInt64.ofNat count).toNat = count :=
    UInt64.toNat_ofNat_of_lt' (Nat.lt_of_le_of_lt (Nat.le_mul_of_pos_left count (by decide)) few)
  have twice : (2 * UInt64.ofNat count).toNat = 2 * count := by
    rw [UInt64.toNat_mul, number]
    exact Nat.mod_eq_of_lt few
  rw [UInt64.toNat_add, UInt64.toNat_add, twice, UInt64.toNat_ofNat', UInt64.toNat_ofNat']
  omega

theorem length_rows (address offset : Nat) (contents : List UInt8) :
    (rows address offset contents).length = (contents.length - offset) / 2 := by
  rw [rows, List.length_mapIdx, length_words, List.length_drop]

theorem lists_rows (address offset : Nat) (contents : List UInt8) :
    Lists address offset contents (rows address offset contents) := by
  constructor
  case length =>
    rw [length_rows]
    split
    · rfl
    · omega
  case within =>
    intro count inside
    rw [length_rows] at inside
    omega
  case row =>
    intro count inside
    have within : count < (words (contents.drop offset)).length := by
      simpa only [rows, List.length_mapIdx] using inside
    have value := toNat_words _ within
    simp only [List.getD_eq_getElem?_getD, List.getElem?_drop, ← Nat.add_assoc] at value
    refine ⟨(words (contents.drop offset))[count], ?_, ?_, Disassembler.inval_prefix_iff⟩
    · simpa only [List.getD_eq_getElem?_getD] using value
    · simp only [rows, List.getElem_mapIdx, Listing.row]
  case unbroken =>
    intro text member
    obtain ⟨count, inside, rfl⟩ := List.mem_mapIdx.mp member
    exact (printable_row _ _).newline_notMem
  case bytes =>
    have column : (rows address offset contents).flatMap lastFour =
        (words (contents.drop offset)).flatMap fun word => (Text.hex 4 word.toNat).toList :=
      flatMap_mapIdx (fun _ word => lastFour_row _ word) _
    rw [column, hexBytes_words, Text.bytesOf?_hexBytes, rows, List.length_mapIdx]

/-! ### Colours -/

private theorem shownFrom_line (lawful : painter.Lawful) (coloured : Bool) (address : Nat)
    (word : UInt16) (rest : List Char) :
    Text.shownFrom false ((line painter coloured address word).toList ++ rest) =
      (row address word ++ "\n").toList ++ Text.shownFrom false rest := by
  have number := (Text.printable_hex 3 address).escape_notMem
  have last :
      Text.shownFrom false ((wordText painter coloured word).toList ++ ("\n".toList ++ rest)) =
      (Text.hex 4 word.toNat).toList ++ ("\n".toList ++ Text.shownFrom false rest) := by
    have printable := Text.printable_hex 4 word.toNat
    have newline : Text.shownFrom false ("\n".toList ++ rest) =
        "\n".toList ++ Text.shownFrom false rest :=
      Text.shownFrom_append_of_notMem (by decide) rest
    cases coloured with
    | false =>
        exact (Text.shownFrom_append_of_notMem printable.escape_notMem _).trans
          (congrArg _ newline)
    | true =>
        exact ((lawful.tint .grey).shownFrom_write printable _).trans (congrArg _ newline)
  simp only [line, row, String.toList_append, List.append_assoc]
  rw [Text.shownFrom_append_of_notMem number, Text.shownFrom_append_of_notMem (by decide),
    Disassembler.shownFrom_text lawful, Text.shownFrom_append_of_notMem (by decide), last]

theorem shown_lines (lawful : painter.Lawful) (coloured : Bool) (address offset : Nat)
    (contents : List UInt8) :
    Text.shown (String.join (lines painter coloured address offset contents)) =
      String.join ((rows address offset contents).map (· ++ "\n")) := by
  have every (words : List UInt16) (address : Nat) :
      Text.shownFrom false (String.join (linesFrom painter coloured address words)).toList =
        (String.join (linesFrom painter false address words)).toList := by
    induction words generalizing address with
    | nil => rfl
    | cons word rest ih =>
        rw [linesFrom, linesFrom, String.join_cons, String.join_cons, String.toList_append,
          String.toList_append, shownFrom_line lawful, line_plain lawful, ih]
  rw [← lines_plain lawful, lines, lines, Text.shown, every, String.ofList_toList]

end Listing

/-! ### Command lines -/

namespace CommandLine

/-- A reader goes from argument to argument: a dash and the letter of an option with an operand
take the next argument as the operand, and an argument that does not begin with a dash is free. -/
structure Reader.Lawful {ι : Type} (reader : Reader ι) : Prop where
  nothing : ∀ choices, reader.read choices [] = { occurrences := [], complaint := none }
  setting : ∀ {choices : List (Choice ι)} {letter : Char} {choice : Choice ι},
    choices.find? (fun choice => choice.letter == letter) = some choice →
    choice.operand.isSome = true → letter ≠ '-' → ∀ operand rest,
      reader.read choices (String.ofList ['-', letter] :: operand :: rest) =
        .append [.setting choice.id (String.ofList ['-', letter]) operand]
          (reader.read choices rest)
  free : ∀ choices {text : String}, text.toList.head? ≠ some '-' → ∀ rest,
    reader.read choices (text :: rest) = .append [.free text] (reader.read choices rest)

theorem Reader.lawful_standard {ι : Type} : (standard : Reader ι).Lawful where
  nothing := fun choices => rfl
  setting := by
    intro choices letter choice found operated other operand rest
    have single : String.ofList ['-', letter] ≠ "--" := by
      intro same
      have letters := congrArg String.toList same
      rw [String.toList_ofList] at letters
      exact other (List.singleton_inj.mp (List.cons.inj letters).2)
    have wants : Argument.ofText choices (String.ofList ['-', letter]) =
        { occurrences := [], ending := .wants choice.id (String.ofList ['-', letter]) } := by
      have takes : choice.operand.isNone = false := Option.isNone_eq_false_iff.mpr operated
      simp [Argument.ofText, Argument.ofLetters, found, takes]
    simp only [standard, Line.read, if_neg single, wants, List.nil_append]
  free := by
    intro choices text named rest
    have apart : text ≠ "--" := by
      rintro rfl
      exact named rfl
    have alone : Argument.ofText choices text = .one (.free text) := by
      unfold Argument.ofText
      split
      · rename_i dashed
        exact absurd (congrArg List.head? dashed) named
      · rename_i dashed
        exact absurd (congrArg List.head? dashed) named
      · rfl
    simp only [standard, Line.read, if_neg apart, alone, Argument.one]

end CommandLine

namespace CommandLine.Lister

variable {painter : Text.Painter} {reader : Reader Id} {options final : Options}
  {given : List (Occurrence Id)} {arguments : List String} {path : String}

private theorem taken_cons {occurrence : Occurrence Id}
    (taken : (occurrence :: given).foldlM Options.take options = .ok final) :
    ∃ middle, options.take occurrence = .ok middle ∧
      given.foldlM Options.take middle = .ok final := by
  rw [List.foldlM_cons] at taken
  cases first : options.take occurrence with
  | error complaint =>
      rw [first] at taken
      cases taken
  | ok middle =>
      rw [first] at taken
      exact ⟨middle, rfl, taken⟩

/-- A number is what one of its settings tells, or a standard one if there is none. -/
def Tells (given : List (Occurrence Id)) (id : Id) (radix bound standard value : Nat) : Prop :=
  (∃ shown operand, .setting id shown operand ∈ given ∧
    Text.natural radix bound operand = .ok value) ∨
  (∀ shown operand, .setting id shown operand ∉ given) ∧ value = standard

theorem Tells.lt {id : Id} {radix bound standard value : Nat}
    (told : Tells given id radix bound standard value) (below : standard < bound) :
    value < bound := by
  rcases told with ⟨shown, operand, -, read⟩ | ⟨-, same⟩
  · exact Text.natural_lt (Nat.zero_lt_of_lt below) read
  · exact same ▸ below

private theorem tells_of_taken {id : Id} {value : Options → Nat}
    {radix bound : Nat}
    (set : ∀ {before after : Options} {shown operand : String},
      before.take (.setting id shown operand) = .ok after →
      Text.natural radix bound operand = .ok (value after))
    (kept : ∀ {before after : Options} {occurrence : Occurrence Id},
      before.take occurrence = .ok after →
      (∀ shown operand, occurrence ≠ .setting id shown operand) → value after = value before)
    (taken : given.foldlM Options.take options = .ok final) :
    Tells given id radix bound (value options) (value final) := by
  induction given generalizing options with
  | nil =>
      cases taken
      exact .inr ⟨fun _ _ => List.not_mem_nil, rfl⟩
  | cons occurrence later ih =>
      obtain ⟨middle, first, rest⟩ := taken_cons taken
      rcases ih rest with ⟨shown, operand, member, found⟩ | ⟨absent, same⟩
      · exact .inl ⟨shown, operand, List.mem_cons_of_mem _ member, found⟩
      · by_cases sets : ∃ shown operand, occurrence = .setting id shown operand
        · obtain ⟨shown, operand, rfl⟩ := sets
          exact .inl ⟨shown, operand, List.mem_cons_self, same ▸ set first⟩
        · have other : ∀ shown operand, occurrence ≠ .setting id shown operand :=
            fun shown operand equal => sets ⟨shown, operand, equal⟩
          exact .inr ⟨fun shown operand => List.not_mem_cons_of_ne_of_not_mem
            (other shown operand).symm (absent shown operand), same.trans (kept first other)⟩

private theorem take_address {before after : Options} {shown operand : String}
    (taken : before.take (.setting .address shown operand) = .ok after) :
    Text.natural 16 UInt16.size operand = .ok after.address := by
  unfold Options.take at taken
  cases read : Text.natural 16 UInt16.size operand with
  | error fault => simp [read] at taken
  | ok address =>
      simp only [read, Except.ok.injEq] at taken
      rw [← taken]

private theorem take_offset {before after : Options} {shown operand : String}
    (taken : before.take (.setting .offset shown operand) = .ok after) :
    Text.natural 10 UInt64.size operand = .ok after.offset := by
  unfold Options.take at taken
  cases read : Text.natural 10 UInt64.size operand with
  | error fault => simp [read] at taken
  | ok offset =>
      simp only [read, Except.ok.injEq] at taken
      rw [← taken]

private theorem take_keeps {before after : Options} {occurrence : Occurrence Id}
    (taken : before.take occurrence = .ok after) :
    ((∀ shown operand, occurrence ≠ .setting .address shown operand) →
        after.address = before.address) ∧
      ((∀ shown operand, occurrence ≠ .setting .offset shown operand) →
        after.offset = before.offset) ∧
      (after.coloured = false ↔ before.coloured = false ∨ occurrence = .switch .plain) := by
  cases occurrence with
  | switch id => cases id <;> cases taken <;> simp
  | setting id shown operand =>
      cases id with
      | address =>
          simp only [Options.take] at taken
          split at taken
          · cases taken
            simp
          · cases taken
      | offset =>
          simp only [Options.take] at taken
          split at taken
          · cases taken
            simp
          · cases taken
      | help =>
          cases taken
          simp
      | plain =>
          cases taken
          simp
  | free argument =>
      simp only [Options.take] at taken
      split at taken
      · cases taken
      · cases taken
        simp

structure Chosen (given : List (Occurrence Id)) (options : Options) : Prop where
  address : Tells given .address 16 UInt16.size 0x200 options.address
  offset : Tells given .offset 10 UInt64.size 0 options.offset
  coloured : options.coloured = false ↔ .switch .plain ∈ given
  address_lt : options.address < UInt16.size
  offset_lt : options.offset < UInt64.size

private theorem coloured_of_taken (taken : given.foldlM Options.take options = .ok final) :
    final.coloured = false ↔ options.coloured = false ∨ .switch .plain ∈ given := by
  induction given generalizing options with
  | nil =>
      cases taken
      simp
  | cons occurrence later ih =>
      obtain ⟨middle, first, rest⟩ := taken_cons taken
      rw [ih rest, (take_keeps first).2.2, List.mem_cons, or_assoc, eq_comm (a := occurrence)]

private theorem chosen_of_taken (taken : given.foldlM Options.take .initial = .ok options) :
    Chosen given options := by
  have address : Tells given .address 16 UInt16.size 0x200 options.address :=
    tells_of_taken take_address (fun first => (take_keeps first).1) taken
  have offset : Tells given .offset 10 UInt64.size 0 options.offset :=
    tells_of_taken take_offset (fun first => (take_keeps first).2.1) taken
  have coloured := (coloured_of_taken taken).trans (or_iff_right nofun)
  exact ⟨address, offset, coloured, address.lt (by decide), offset.lt (by decide)⟩

private theorem taken_of_plan (planned : plan reader arguments = .withFile path options) :
    (reader.read program.choices arguments).occurrences.foldlM Options.take .initial =
      .ok options := by
  unfold plan Line.apply at planned
  split at planned
  · cases planned
  · rename_i chosen applied
    split at applied
    · cases applied
    · cases applied
    · rename_i taken complete
      unfold Program.plan at planned
      split at planned
      · cases planned
      · split at planned
        · cases planned
        · cases applied
          cases planned
          exact taken

/-- Every address and every offset can be asked for, and every file whose name does not begin
like an option. -/
theorem plan_written (lawful : reader.Lawful) (address : UInt16) (offset : UInt64)
    {path : String} (named : path.toList.head? ≠ some '-') :
    plan reader ["-l", Text.hex 1 address.toNat, "-o", Text.decimal '0' 1 offset.toNat, path] =
      .withFile path
        { Options.initial with
          file := some path
          address := address.toNat
          offset := offset.toNat } := by
  have line : reader.read program.choices
      ["-l", Text.hex 1 address.toNat, "-o", Text.decimal '0' 1 offset.toNat, path] =
        { occurrences :=
            [.setting .address "-l" (Text.hex 1 address.toNat),
              .setting .offset "-o" (Text.decimal '0' 1 offset.toNat), .free path]
          complaint := none } := by
    have letterOfAddress : "-l" = String.ofList ['-', 'l'] := rfl
    have letterOfOffset : "-o" = String.ofList ['-', 'o'] := rfl
    rw [letterOfAddress, lawful.setting rfl rfl (by decide), letterOfOffset,
      lawful.setting rfl rfl (by decide), lawful.free _ named, lawful.nothing]
    rfl
  rw [plan, line]
  simp only [Line.apply, List.foldlM_cons, List.foldlM_nil, Options.take,
    Text.natural_hex 1 address.toNat_lt, Text.natural_decimal 1 offset.toNat_lt, UInt16.size,
    UInt64.size]
  rfl

/-- A command line that names a file lists that file: from its offset and from its address, in
colour or plain, and in both the same rows. No address of a row is too great for the machine
words in which it is summed up. -/
theorem run_lists (lawful : painter.Lawful)
    (planned : plan reader arguments = .withFile path options)
    {fileNamed : String → Except FileFault (List UInt8)} {contents : List UInt8}
    (held : fileNamed path = .ok contents) :
    let exit := run painter reader fileNamed arguments
    Chosen (reader.read program.choices arguments).occurrences options ∧
      exit.code = 0 ∧ exit.errors = "" ∧
      ∃ rows, Listing.Lists options.address options.offset contents rows ∧
        (contents.length < 2 ^ 63 → ∀ count < rows.length,
          (UInt64.ofNat options.address + UInt64.ofNat options.offset +
              2 * UInt64.ofNat count).toNat =
            options.address + options.offset + 2 * count) ∧
        (options.coloured = false → exit.output = String.join (rows.map (· ++ "\n"))) ∧
        Text.shown exit.output = String.join (rows.map (· ++ "\n")) := by
  have chosen := chosen_of_taken (taken_of_plan planned)
  have lists := Listing.lists_rows options.address options.offset contents
  have ran : run painter reader fileNamed arguments = list painter options contents := by
    simp only [run, planned, Plan.run, held]
  rw [ran]
  refine ⟨chosen, rfl, rfl, Listing.rows options.address options.offset contents, lists,
    fun short count => lists.toNat_address chosen.address_lt short, ?_,
    Listing.shown_lines lawful _ _ _ _⟩
  intro plain
  rw [list, plain, Listing.lines_plain lawful]

/-- From its second byte on, a file of six bytes has two whole words and an odd byte. -/
theorem run_lists_odd_offset :
    let arguments := ["-l", "ffe", "-o", "1", "rom"]
    let options : Options :=
      { help := false, file := some "rom", address := 0xffe, offset := 1, coloured := true }
    let contents : List UInt8 := [0xff, 0x00, 0xe0, 0x12, 0x34, 0x56]
    let fileNamed : String → Except FileFault (List UInt8) := fun _ => .ok contents
    let exit := run .terminal .standard fileNamed arguments
    Text.Painter.terminal.Lawful ∧ plan .standard arguments = .withFile "rom" options ∧
      fileNamed "rom" = .ok contents ∧
      ∃ rows, Listing.Lists 0xffe 1 contents rows ∧
        Text.shown exit.output = String.join (rows.map (· ++ "\n")) ∧
        Text.shown exit.output = "fff: cls 00e0\n1001: jp     234 1234\n" := by
  intro arguments options contents fileNamed exit
  have address : Text.hex 1 (0xffe : UInt16).toNat = "ffe" := by decide +kernel
  have offset : Text.decimal '0' 1 (1 : UInt64).toNat = "1" := by decide +kernel
  have planned : plan .standard arguments = .withFile "rom" options := by
    have written := @plan_written _ Reader.lawful_standard 0xffe 1 "rom" (by decide)
    rwa [address, offset] at written
  have held : fileNamed "rom" = .ok contents := rfl
  obtain ⟨-, -, -, rows, lists, -, -, shown⟩ :=
    run_lists Text.Painter.lawful_terminal planned held
  exact ⟨Text.Painter.lawful_terminal, planned, held, rows, lists, shown, by decide +kernel⟩

end CommandLine.Lister

end Chip8
