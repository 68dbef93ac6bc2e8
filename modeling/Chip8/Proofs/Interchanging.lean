import Mathlib.Data.List.Nodup
import Chip8.Interchange
import Chip8.Proofs.Decoding
import Chip8.Proofs.Records

/-!
Values come back from their texts. For each type with a JSON form there is a relation that says how
a value may be spelled; the texts that are read as a value are those that hold the tokens of one of
its spellings, and the text that is written for it is one of them.
-/

namespace Chip8

namespace Form

/-- The form reads a value from its spellings and from nothing else, and writes one of them. -/
structure Spells (α : Type) [Form α] (spelled : α → Json → Prop) : Prop where
  ofJson?_iff (value : α) (json : Json) : ofJson? json = some value ↔ spelled value json
  toJson_spelled (value : α) : spelled value (toJson value)
  toJson_sound (value : α) : (toJson value).Sound

/-- Texts carry the values of a type without loss. -/
structure Faithful (α : Type) [Form α] (spelled : α → Json → Prop) : Prop where
  parse?_print (value : α) : parse? (print value) = some value
  print_injective : Function.Injective (print : α → String)
  /-- The texts of a value hold a spelling of it, with blanks anywhere between its tokens. -/
  parse?_iff (text : String) (value : α) :
    parse? text = some value ↔ ∃ json, spelled value json ∧ Json.Spaced json.tokens text.toList
  parse?_reprinted {text : String} {value : α} (accepted : parse? text = some value) :
    parse? (print value) = some value

theorem Spells.faithful {α : Type} [Form α] {spelled : α → Json → Prop}
    (spells : Spells α spelled) : Faithful α spelled := by
  have comesBack (value : α) : parse? (print value) = some value := by
    rw [parse?, print, (spells.toJson_sound value).parse?_text, Option.bind_some,
      spells.ofJson?_iff]
    exact spells.toJson_spelled value
  refine ⟨comesBack, ?_, ?_, fun _ => comesBack _⟩
  · intro first second same
    have both := comesBack first
    rw [same, comesBack second] at both
    exact (Option.some.inj both).symm
  · intro text value
    rw [parse?, Option.bind_eq_some_iff]
    simp only [Json.parse?_eq_some_iff, spells.ofJson?_iff, and_comm]

end Form

/-! ### Dialects and settings -/

namespace Dialect

def members (dialect : Dialect) : List (String × Json) :=
  [("shift_vy", .boolean dialect.shiftsSecond),
    ("dma_hold_i", .boolean dialect.keepsIndex),
    ("screen_wrap", .boolean dialect.wrapsSprites),
    ("vf_reset", .boolean dialect.clearsFlag),
    ("jump_vx", .boolean dialect.jumpsByAddress),
    ("vf_last", .boolean dialect.flagLast)]

def Spelled (dialect : Dialect) (json : Json) : Prop := Json.Record dialect.members json

theorem members_plain (dialect : Dialect) :
    ∀ field ∈ dialect.members, Json.isPlainName field.1 = true := by
  simp only [members, List.forall_mem_cons]
  exact ⟨rfl, rfl, rfl, rfl, rfl, rfl, List.forall_mem_nil _⟩

theorem spells : Form.Spells Dialect Spelled where
  ofJson?_iff dialect json := by
    have distinct : (dialect.members.map Prod.fst).Nodup := by
      show ["shift_vy", "dma_hold_i", "screen_wrap", "vf_reset", "jump_vx", "vf_last"].Nodup
      decide
    constructor
    · intro read
      obtain ⟨fields, found, rest⟩ := Option.bind_eq_some_iff.mp read
      obtain ⟨choices, booleans, made⟩ := Option.bind_eq_some_iff.mp rest
      split at made
      · cases made
        rw [Json.mapM_boolean?_eq_some_iff.mp booleans] at found
        exact (Json.fields?_eq_some_iff distinct).mp found
      · cases made
    · intro spelled
      have found := (Json.fields?_eq_some_iff distinct).mpr spelled
      exact Option.bind_eq_some_iff.mpr ⟨_, found, rfl⟩
  toJson_spelled dialect := Json.record_spelled dialect.members_plain
  toJson_sound dialect := by
    refine Json.sound_record dialect.members_plain ?_
    simp only [List.forall_mem_cons]
    exact ⟨Json.sound_boolean _, Json.sound_boolean _, Json.sound_boolean _,
      Json.sound_boolean _, Json.sound_boolean _, Json.sound_boolean _, List.forall_mem_nil _⟩

end Dialect

namespace Settings

def members (settings : Settings) (dialect : Json) : List (String × Json) :=
  [("debug", .boolean settings.traces), ("pause", .boolean settings.paused),
    ("quirks", dialect)]

def Spelled (settings : Settings) (json : Json) : Prop :=
  ∃ dialect, settings.dialect.Spelled dialect ∧ Json.Record (settings.members dialect) json

theorem members_plain (settings : Settings) (dialect : Json) :
    ∀ field ∈ settings.members dialect, Json.isPlainName field.1 = true := by
  simp only [members, List.forall_mem_cons]
  exact ⟨rfl, rfl, rfl, List.forall_mem_nil _⟩

theorem spells : Form.Spells Settings Spelled where
  ofJson?_iff settings json := by
    have distinct (dialect : Json) : ((settings.members dialect).map Prod.fst).Nodup := by
      show ["debug", "pause", "quirks"].Nodup
      decide
    constructor
    · intro read
      obtain ⟨fields, found, rest⟩ := Option.bind_eq_some_iff.mp read
      split at rest
      · rename_i traces paused dialect
        obtain ⟨tracing, isTracing, rest⟩ := Option.bind_eq_some_iff.mp rest
        obtain ⟨pausing, isPausing, rest⟩ := Option.bind_eq_some_iff.mp rest
        obtain ⟨own, isDialect, made⟩ := Option.bind_eq_some_iff.mp rest
        cases made
        rw [Json.boolean?_eq_some_iff.mp isTracing, Json.boolean?_eq_some_iff.mp isPausing]
          at found
        exact ⟨dialect, (Dialect.spells.ofJson?_iff own dialect).mp isDialect,
          (Json.fields?_eq_some_iff (distinct dialect)).mp found⟩
      · cases rest
    · rintro ⟨dialect, ofDialect, spelled⟩
      have found := (Json.fields?_eq_some_iff (distinct dialect)).mpr spelled
      have isDialect := (Dialect.spells.ofJson?_iff settings.dialect dialect).mpr ofDialect
      refine Option.bind_eq_some_iff.mpr ⟨_, found, ?_⟩
      simp [members, Json.boolean?, isDialect]
  toJson_spelled settings :=
    ⟨_, Dialect.spells.toJson_spelled settings.dialect,
      Json.record_spelled (settings.members_plain _)⟩
  toJson_sound settings := by
    refine Json.sound_record (settings.members_plain _) ?_
    simp only [List.forall_mem_cons]
    exact ⟨Json.sound_boolean _, Json.sound_boolean _,
      Dialect.spells.toJson_sound settings.dialect, List.forall_mem_nil _⟩

end Settings

/-! ### Variants without operands -/

namespace Preset

def Spelled (preset : Preset) (json : Json) : Prop := Json.Bare preset.label json

private theorem find_label (preset : Preset) :
    Preset.all.find? (fun other => other.label == preset.label) = some preset := by
  cases preset <;> rfl

theorem spells : Form.Spells Preset Spelled where
  ofJson?_iff preset json := by
    rw [Spelled, ← Json.bare_iff]
    constructor
    · intro read
      obtain ⟨⟨name, carried⟩, isVariant, rest⟩ := Option.bind_eq_some_iff.mp read
      obtain ⟨nothing, found⟩ := Option.ite_none_right_eq_some.mp rest
      have same : preset.label = name := by simpa using List.find?_some found
      exact ⟨carried, same ▸ isVariant, nothing⟩
    · rintro ⟨carried, isVariant, nothing⟩
      exact Option.bind_eq_some_iff.mpr
        ⟨_, isVariant, Option.ite_none_right_eq_some.mpr ⟨nothing, preset.find_label⟩⟩
  toJson_spelled preset := Json.variant_spelled (by cases preset <;> rfl)
  toJson_sound preset := Json.sound_variant (by cases preset <;> rfl)

end Preset

namespace Region

def Spelled : Region → Json → Prop
  | .program, json => Json.Bare "Program" json

theorem spells : Form.Spells Region Spelled where
  ofJson?_iff region json := by
    cases region
    rw [Spelled, ← Json.bare_iff]
    constructor
    · intro read
      obtain ⟨⟨name, carried⟩, isVariant, rest⟩ := Option.bind_eq_some_iff.mp read
      obtain ⟨⟨same, nothing⟩, _⟩ := Option.ite_none_right_eq_some.mp rest
      exact ⟨carried, same ▸ isVariant, nothing⟩
    · rintro ⟨carried, isVariant, nothing⟩
      exact Option.bind_eq_some_iff.mpr
        ⟨_, isVariant, Option.ite_none_right_eq_some.mpr ⟨⟨rfl, nothing⟩, rfl⟩⟩
  toJson_spelled region := by
    cases region
    exact Json.variant_spelled rfl
  toJson_sound region := by
    cases region
    exact Json.sound_variant rfl

end Region

/-! ### Numbers in records -/

namespace RunState

inductive Spelled : RunState → Json → Prop
  | running {json : Json} (bare : Json.Bare "Running" json) : Spelled .running json
  | awaitingKey {register : UInt64} {json record value : Json}
      (carrying : Json.Carrying "AwaitingKey" record json)
      (given : Json.Record [("reg", value)] record)
      (numeral : Json.Numeral register.toNat value) : Spelled (.awaitingKey register) json

theorem spells : Form.Spells RunState Spelled where
  ofJson?_iff state json := by
    constructor
    · intro read
      obtain ⟨⟨name, carried⟩, isVariant, rest⟩ := Option.bind_eq_some_iff.mp read
      split at rest
      · rename_i carried same
        cases same
        obtain ⟨nothing, made⟩ := Option.ite_none_right_eq_some.mp rest
        cases made
        exact .running (Json.bare_iff.mp ⟨_, isVariant, nothing⟩)
      · rename_i carried same
        cases same
        obtain ⟨fields, found, rest⟩ := Option.bind_eq_some_iff.mp rest
        split at rest
        · rename_i value
          obtain ⟨number, isNumber, made⟩ := Option.bind_eq_some_iff.mp rest
          cases made
          obtain ⟨numeral, small⟩ := Json.below?_eq_some_iff.mp isNumber
          refine .awaitingKey (Json.carrying_iff.mp isVariant)
            (Json.fields?_singleton_iff.mp found) ?_
          rwa [UInt64.toNat_ofNat_of_lt' small]
        · cases rest
      · cases rest
    · intro spelled
      cases spelled with
      | running bare =>
          obtain ⟨carried, isVariant, nothing⟩ := Json.bare_iff.mpr bare
          exact Option.bind_eq_some_iff.mpr
            ⟨_, isVariant, Option.ite_none_right_eq_some.mpr ⟨nothing, rfl⟩⟩
      | @awaitingKey register json record value carrying given numeral =>
          have found := Json.fields?_singleton_iff.mpr given
          have number := Json.below?_eq_some_iff.mpr ⟨numeral, register.toNat_lt⟩
          refine Option.bind_eq_some_iff.mpr ⟨_, Json.carrying_iff.mpr carrying, ?_⟩
          refine Option.bind_eq_some_iff.mpr ⟨_, found, ?_⟩
          refine Option.bind_eq_some_iff.mpr ⟨_, number, ?_⟩
          simp
  toJson_spelled state := by
    cases state with
    | running => exact .running (Json.variant_spelled rfl)
    | awaitingKey register =>
        exact .awaitingKey (Json.carrying_spelled rfl _)
          (Json.record_spelled_singleton rfl _) (Json.numeral_ofNat _)
  toJson_sound state := by
    cases state with
    | running => exact Json.sound_variant rfl
    | awaitingKey register =>
        exact Json.sound_record_singleton rfl
          (Json.sound_record_singleton rfl (Json.sound_ofNat _))

end RunState

namespace Screen

def Spelled (screen : Screen) (json : Json) : Prop :=
  ∃ items, Json.Record [("rows", .array items)] json ∧
    List.Forall₂ (fun row item => Json.Numeral row.toNat item) screen.rows.toList items

theorem ofRows?_eq_some_iff {rows : List (BitVec 64)} {screen : Screen} :
    ofRows? rows = some screen ↔ screen.rows.toList = rows := by
  unfold ofRows?
  constructor
  · intro made
    split at made
    · cases made
      rfl
    · cases made
  · rintro rfl
    rw [dif_pos screen.rows.length_toList]
    rfl

theorem mapM_below?_iff {items : List Json} {rows : List (BitVec 64)} :
    (∃ numbers, items.mapM (Json.below? UInt64.size) = some numbers ∧
      numbers.map (BitVec.ofNat 64) = rows) ↔
      List.Forall₂ (fun row item => Json.Numeral row.toNat item) rows items := by
  simp only [Json.mapM_eq_some_iff, Json.below?_eq_some_iff]
  constructor
  · rintro ⟨numbers, read, rfl⟩
    rw [List.forall₂_map_left_iff]
    refine (read.imp fun item number numeral => ?_).flip
    show Json.Numeral (BitVec.ofNat 64 number).toNat item
    rw [BitVec.toNat_ofNat, Nat.mod_eq_of_lt numeral.2]
    exact numeral.1
  · intro numerals
    refine ⟨rows.map BitVec.toNat, ?_, ?_⟩
    · rw [List.forall₂_map_right_iff]
      exact (numerals.imp fun row item numeral => ⟨numeral, row.isLt⟩).flip
    · simp [Function.comp_def]

theorem spells : Form.Spells Screen Spelled where
  ofJson?_iff screen json := by
    constructor
    · intro read
      obtain ⟨fields, found, rest⟩ := Option.bind_eq_some_iff.mp read
      split at rest
      · rename_i items
        obtain ⟨numbers, isNumbers, made⟩ := Option.bind_eq_some_iff.mp rest
        have rows := ofRows?_eq_some_iff.mp made
        exact ⟨items, Json.fields?_singleton_iff.mp found,
          mapM_below?_iff.mp ⟨numbers, isNumbers, rows.symm⟩⟩
      · cases rest
    · rintro ⟨items, given, numerals⟩
      have found := Json.fields?_singleton_iff.mpr given
      obtain ⟨numbers, isNumbers, rows⟩ := mapM_below?_iff.mpr numerals
      refine Option.bind_eq_some_iff.mpr ⟨_, found, ?_⟩
      exact Option.bind_eq_some_iff.mpr ⟨numbers, isNumbers, ofRows?_eq_some_iff.mpr rows.symm⟩
  toJson_spelled screen := by
    refine ⟨_, Json.record_spelled_singleton rfl _, ?_⟩
    rw [List.forall₂_map_right_iff, List.forall₂_same]
    exact fun row _ => Json.numeral_ofNat row.toNat
  toJson_sound screen := by
    refine Json.sound_record_singleton rfl (Json.sound_array.mpr ?_)
    rw [List.forall_mem_map]
    exact fun row _ => Json.sound_ofNat row.toNat

end Screen

/-! ### Instructions -/

namespace Opcode

theorem label_injective {first second : Opcode} (same : first.label = second.label) :
    first = second := by
  have distinct : (all.map label).Nodup := by decide +kernel
  exact List.inj_on_of_nodup_map distinct (mem_all first) (mem_all second) same

theorem ofLabel?_eq_some_iff {name : String} {opcode : Opcode} :
    ofLabel? name = some opcode ↔ opcode.label = name := by
  constructor
  · intro found
    simpa using List.find?_some found
  · rintro rfl
    have some : (ofLabel? opcode.label).isSome = true := by
      rw [ofLabel?, List.find?_isSome]
      exact ⟨opcode, mem_all opcode, beq_self_eq_true _⟩
    obtain ⟨other, found⟩ := Option.isSome_iff_exists.mp some
    have same : other.label = opcode.label := by simpa using List.find?_some found
    rw [found, label_injective same]

theorem label_plain (opcode : Opcode) : Json.isPlainName opcode.label = true := by
  have every : (all.all fun opcode => Json.isPlainName opcode.label) = true := by
    decide +kernel
  exact List.all_eq_true.mp every opcode (mem_all opcode)

theorem fields_nodup (opcode : Opcode) : opcode.fields.Nodup := by
  have every : (all.all fun opcode => opcode.fields.Nodup) = true := by decide +kernel
  simpa using List.all_eq_true.mp every opcode (mem_all opcode)

end Opcode

theorem Field.label_injective : Function.Injective Field.label := by
  intro first second same
  cases first <;> cases second <;> first | rfl | exact absurd same (by decide)

theorem Field.label_plain (field : Field) : Json.isPlainName field.label = true := by
  cases field <;> rfl

theorem Opcode.mem_fields_iff (opcode : Opcode) (field : Field) :
    field ∈ opcode.fields ↔ 0 < opcode.fieldWidth field := by
  have every : ∀ opcode ∈ all, ∀ field ∈ [Field.x, .y, .n, .byte, .address],
      (field ∈ opcode.fields ↔ 0 < opcode.fieldWidth field) := by decide +kernel
  exact every opcode (mem_all opcode) field (by cases field <;> decide)

namespace Instruction

/-- The spellings of an instruction: the name of its opcode, which carries a record if the opcode
has fields. -/
inductive Spelled (instruction : Instruction) : Json → Prop
  | bare {json : Json} (none : instruction.opcode.fields = [])
      (bare : Json.Bare instruction.opcode.label json) : Spelled instruction json
  | record {json record : Json} {values : List Json} (some : instruction.opcode.fields ≠ [])
      (carrying : Json.Carrying instruction.opcode.label record json)
      (given :
        Json.Record ((instruction.opcode.fields.map Field.label).zip values) record)
      (numerals : List.Forall₂ (fun field value => Json.Numeral (instruction.operand field) value)
        instruction.opcode.fields values) : Spelled instruction json

/-! ### Operands -/

structure Admits (fields : List Field) (operand : Field → Nat) : Prop where
  small : ∀ field ∈ fields, operand field < field.bound
  zero : ∀ field, field ∉ fields → operand field = 0

private theorem operand_lt_bound (instruction : Instruction) (field : Field) :
    instruction.operand field < field.bound := by
  cases instruction <;> cases field <;>
    first
    | exact UInt64.toNat_lt _
    | exact UInt16.toNat_lt _
    | exact UInt8.toNat_lt _
    | exact Nat.zero_lt_of_ne_zero (by decide)

theorem operand_eq_zero (instruction : Instruction) {field : Field}
    (absent : field ∉ instruction.opcode.fields) : instruction.operand field = 0 := by
  rw [Opcode.mem_fields_iff] at absent
  cases instruction <;> cases field <;>
    first
    | rfl
    | exact absurd (Nat.zero_lt_succ _) absent

private theorem admits_operand (instruction : Instruction) :
    Admits instruction.opcode.fields instruction.operand where
  small field _ := instruction.operand_lt_bound field
  zero _ absent := instruction.operand_eq_zero absent

theorem Admits.operand_ofOperands {opcode : Opcode} {operand : Field → Nat}
    (admits : Admits opcode.fields operand) : (ofOperands opcode operand).operand = operand := by
  funext field
  by_cases inside : field ∈ opcode.fields
  · have bound := admits.small field inside
    rw [Opcode.mem_fields_iff] at inside
    cases opcode <;> cases field <;>
      first
      | exact absurd inside (Nat.lt_irrefl 0)
      | exact UInt64.toNat_ofNat_of_lt' bound
      | exact UInt16.toNat_ofNat_of_lt' bound
      | exact UInt8.toNat_ofNat_of_lt' bound
  · have none : field ∉ (ofOperands opcode operand).opcode.fields := by
      rwa [opcode_ofOperands]
    rw [operand_eq_zero _ none, admits.zero field inside]

theorem map_lookup_zip {fields : List Field} {numbers : List Nat} (distinct : fields.Nodup)
    (length : fields.length = numbers.length) :
    (fields.map fun field => ((fields.zip numbers).lookup field).getD 0) = numbers := by
  induction fields generalizing numbers with
  | nil => exact (List.length_eq_zero_iff.mp length.symm).symm
  | cons first fields ih =>
      cases numbers with
      | nil => cases length
      | cons number numbers =>
          obtain ⟨new, later⟩ := List.nodup_cons.mp distinct
          have others : (fields.map fun field =>
              (((first :: fields).zip (number :: numbers)).lookup field).getD 0) = numbers := by
            refine Eq.trans (List.map_congr_left fun field inside => ?_)
              (ih later (Nat.succ.inj length))
            have apart : (field == first) = false :=
              beq_eq_false_iff_ne.mpr fun same => new (same ▸ inside)
            rw [List.zip_cons_cons, List.lookup_cons, apart]
          rw [List.map_cons, others, List.zip_cons_cons, List.lookup_cons_self]
          rfl

theorem lookup_zip_of_notMem {fields : List Field} {field : Field} (absent : field ∉ fields)
    (numbers : List Nat) : (fields.zip numbers).lookup field = none := by
  rw [List.lookup_eq_none_iff]
  intro entry inside
  exact bne_iff_ne.mpr fun same => absent (same ▸ (List.of_mem_zip inside).1)

theorem mapM_zip_iff {fields : List Field} {values : List Json} {operand : Field → Nat}
    (length : fields.length = values.length) :
    ((fields.zip values).mapM fun (field, value) => value.below? field.bound) =
        some (fields.map operand) ↔
      (∀ field ∈ fields, operand field < field.bound) ∧
        List.Forall₂ (fun field value => Json.Numeral (operand field) value) fields values := by
  rw [Json.mapM_eq_some_iff, ← List.forall₂_and_left]
  induction fields generalizing values with
  | nil =>
      cases values with
      | nil => exact iff_of_true .nil .nil
      | cons value values => cases length
  | cons field fields ih =>
      cases values with
      | nil => cases length
      | cons value values =>
          rw [List.zip_cons_cons, List.map_cons, List.forall₂_cons, List.forall₂_cons,
            ih (Nat.succ.inj length), Json.below?_eq_some_iff, and_comm (a := Json.Numeral _ _)]

theorem readOperands?_eq_some_iff {fields : List Field} (distinct : fields.Nodup) {json : Json}
    {operand : Field → Nat} :
    readOperands? fields json = some operand ↔
      Admits fields operand ∧
        ∃ values, Json.Record ((fields.map Field.label).zip values) json ∧
          List.Forall₂ (fun field value => Json.Numeral (operand field) value) fields values := by
  have names {values : List Json} (length : fields.length = values.length) :
      json.fields? (fields.map Field.label) = some values ↔
        Json.Record ((fields.map Field.label).zip values) json := by
    have first : ((fields.map Field.label).zip values).map Prod.fst = fields.map Field.label :=
      List.map_fst_zip (by rw [List.length_map, length])
    have second : ((fields.map Field.label).zip values).map Prod.snd = values :=
      List.map_snd_zip (by rw [List.length_map, length])
    rw [← Json.fields?_eq_some_iff, first, second]
    rw [first]
    exact distinct.map Field.label_injective
  constructor
  · intro read
    obtain ⟨values, found, rest⟩ := Option.bind_eq_some_iff.mp read
    obtain ⟨numbers, isNumbers, made⟩ := Option.bind_eq_some_iff.mp rest
    have length := Json.length_of_fields? found
    rw [List.length_map] at length
    have numbersLength : fields.length = numbers.length := by
      have same := (Json.mapM_eq_some_iff.mp isNumbers).length_eq
      rw [List.length_zip, ← length, Nat.min_self] at same
      exact same
    have zero : ∀ field, field ∉ fields → operand field = 0 := by
      intro field absent
      have own := congrFun (Option.some.inj made) field
      rw [← own]
      show ((fields.zip numbers).lookup field).getD 0 = 0
      rw [lookup_zip_of_notMem absent, Option.getD_none]
    have shown : numbers = fields.map operand := by
      rw [← Option.some.inj made, map_lookup_zip distinct numbersLength]
    rw [shown] at isNumbers
    obtain ⟨small, numerals⟩ := (mapM_zip_iff length).mp isNumbers
    exact ⟨⟨small, zero⟩, values, (names length).mp found, numerals⟩
  · rintro ⟨admits, values, given, numerals⟩
    have length := numerals.length_eq
    have isNumbers := (mapM_zip_iff length).mpr ⟨admits.small, numerals⟩
    refine Option.bind_eq_some_iff.mpr ⟨values, (names length).mpr given, ?_⟩
    refine Option.bind_eq_some_iff.mpr ⟨_, isNumbers, congrArg some ?_⟩
    funext field
    by_cases inside : field ∈ fields
    · have whole := map_lookup_zip distinct (List.length_map operand).symm
      exact List.map_inj_left.mp whole field inside
    · rw [lookup_zip_of_notMem inside, Option.getD_none, admits.zero field inside]

/-! ### Instructions from their spellings -/

private theorem spelled_of_ofJson? {instruction : Instruction} {json : Json}
    (read : Form.ofJson? json = some instruction) : instruction.Spelled json := by
  obtain ⟨⟨name, carried⟩, isVariant, rest⟩ := Option.bind_eq_some_iff.mp read
  obtain ⟨opcode, isLabel, rest⟩ := Option.bind_eq_some_iff.mp rest
  rw [← Opcode.ofLabel?_eq_some_iff.mp isLabel] at isVariant
  split at rest
  · rename_i empty
    obtain ⟨nothing, made⟩ := Option.ite_none_right_eq_some.mp rest
    cases made
    refine .bare ?_ ?_
    · rw [opcode_ofOperands]
      exact List.isEmpty_iff.mp empty
    · rw [opcode_ofOperands]
      exact Json.bare_iff.mp ⟨carried, isVariant, nothing⟩
  · rename_i filled
    obtain ⟨record, carries, rest⟩ := Option.bind_eq_some_iff.mp rest
    obtain ⟨operand, isOperand, made⟩ := Option.map_eq_some_iff.mp rest
    cases carries
    cases made
    obtain ⟨admits, values, given, numerals⟩ :=
      (readOperands?_eq_some_iff opcode.fields_nodup).mp isOperand
    refine @Spelled.record _ _ record values ?_ ?_ ?_ ?_
    · rw [opcode_ofOperands]
      exact fun empty => filled (List.isEmpty_iff.mpr empty)
    · rw [opcode_ofOperands]
      exact Json.carrying_iff.mp isVariant
    · rw [opcode_ofOperands]
      exact given
    · rw [opcode_ofOperands, admits.operand_ofOperands]
      exact numerals

private theorem ofJson?_of_spelled {instruction : Instruction} {json : Json}
    (spelled : instruction.Spelled json) : Form.ofJson? json = some instruction := by
  have isLabel := Opcode.ofLabel?_eq_some_iff.mpr (Eq.refl instruction.opcode.label)
  cases spelled with
  | bare none bare =>
      obtain ⟨carried, isVariant, nothing⟩ := Json.bare_iff.mpr bare
      have zero : instruction.operand = fun _ => 0 := by
        funext field
        refine instruction.operand_eq_zero ?_
        rw [none]
        exact List.not_mem_nil
      refine Option.bind_eq_some_iff.mpr ⟨_, isVariant, ?_⟩
      refine Option.bind_eq_some_iff.mpr ⟨_, isLabel, ?_⟩
      rw [if_pos (List.isEmpty_iff.mpr none), if_pos nothing, ← zero, ofOperands_operand]
  | @record record values some carrying given numerals =>
      have isOperand := (readOperands?_eq_some_iff instruction.opcode.fields_nodup).mpr
        ⟨instruction.admits_operand, values, given, numerals⟩
      refine Option.bind_eq_some_iff.mpr ⟨_, Json.carrying_iff.mpr carrying, ?_⟩
      refine Option.bind_eq_some_iff.mpr ⟨_, isLabel, ?_⟩
      rw [if_neg fun empty => some (List.isEmpty_iff.mp empty)]
      refine Option.bind_eq_some_iff.mpr ⟨_, rfl, ?_⟩
      rw [isOperand, Option.map_some, ofOperands_operand]

def members (instruction : Instruction) : List (String × Json) :=
  instruction.opcode.fields.map fun field =>
    (field.label, .ofNat (instruction.operand field))

theorem toJson_of_fields_eq_nil {instruction : Instruction}
    (none : instruction.opcode.fields = []) :
    Form.toJson instruction = Json.variant instruction.opcode.label :=
  if_pos (List.isEmpty_iff.mpr none)

theorem toJson_of_fields_ne_nil {instruction : Instruction}
    (some : instruction.opcode.fields ≠ []) :
    Form.toJson instruction =
      Json.record [(instruction.opcode.label, Json.record instruction.members)] :=
  if_neg fun empty => some (List.isEmpty_iff.mp empty)

theorem members_plain (instruction : Instruction) :
    ∀ field ∈ instruction.members, Json.isPlainName field.1 = true := by
  rw [members, List.forall_mem_map]
  exact fun field _ => field.label_plain

private theorem members_sound (instruction : Instruction) :
    ∀ field ∈ instruction.members, field.2.Sound := by
  rw [members, List.forall_mem_map]
  exact fun field _ => Json.sound_ofNat _

theorem toJson_spelled (instruction : Instruction) :
    instruction.Spelled (Form.toJson instruction) := by
  by_cases none : instruction.opcode.fields = []
  · rw [toJson_of_fields_eq_nil none]
    exact .bare none (Json.variant_spelled instruction.opcode.label_plain)
  · have zipped : (instruction.opcode.fields.map Field.label).zip
        (instruction.opcode.fields.map fun field => .ofNat (instruction.operand field)) =
          instruction.members := List.zip_map' ..
    have given := Json.record_spelled instruction.members_plain
    nth_rewrite 1 [← zipped] at given
    rw [toJson_of_fields_ne_nil none]
    refine .record none (Json.carrying_spelled instruction.opcode.label_plain _) given ?_
    rw [List.forall₂_map_right_iff, List.forall₂_same]
    exact fun field _ => Json.numeral_ofNat _

theorem spells : Form.Spells Instruction Spelled where
  ofJson?_iff _ _ := ⟨spelled_of_ofJson?, ofJson?_of_spelled⟩
  toJson_spelled := toJson_spelled
  toJson_sound instruction := by
    by_cases none : instruction.opcode.fields = []
    · rw [toJson_of_fields_eq_nil none]
      exact Json.sound_variant instruction.opcode.label_plain
    · rw [toJson_of_fields_ne_nil none]
      exact Json.sound_record_singleton instruction.opcode.label_plain
        (Json.sound_record instruction.members_plain instruction.members_sound)

end Instruction

/-- Every value comes back from the text that is printed for it, and different values have different
texts. The texts that are accepted are those that hold a spelling of a value, with its fields in any
order or in an array, among unknown members and between blanks; printing the value that is found and
parsing once more finds the same value. -/
theorem values_come_back :
    Form.Faithful Instruction Instruction.Spelled ∧ Form.Faithful RunState RunState.Spelled ∧
      Form.Faithful Settings Settings.Spelled ∧ Form.Faithful Dialect Dialect.Spelled ∧
      Form.Faithful Preset Preset.Spelled ∧ Form.Faithful Region Region.Spelled ∧
      Form.Faithful Screen Screen.Spelled :=
  ⟨Instruction.spells.faithful, RunState.spells.faithful, Settings.spells.faithful,
    Dialect.spells.faithful, Preset.spells.faithful, Region.spells.faithful,
    Screen.spells.faithful⟩

-- a blank, a name with an escape, a member of another name and the fields in another order
example :
    Form.parse? " \x7b\"mov\":\x7b\"y\":18446744073709551615,\"z\":[],\"\\u0078\":2\x7d\x7d" =
      some (Instruction.pair .load 2 (UInt64.ofNat (UInt64.size - 1))) := by
  decide +kernel

end Chip8
