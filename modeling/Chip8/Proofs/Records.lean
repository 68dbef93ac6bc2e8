import Mathlib.Data.List.Forall2
import Mathlib.Data.List.TakeWhile
import Chip8.Json.Form
import Chip8.Proofs.Nesting

/-!
The spellings that readers of records, variants and numbers accept. A record may be spelled as an
array of its fields or as an object; an object may have its members in any order and may have
others, but each field has exactly one. Names may be spelled with escapes. A variant that carries
nothing may be spelled as an object that carries null.
-/

namespace Chip8.Json

/-! ### Lists that are read item by item -/

theorem mapM_eq_some_iff {α β : Type} {read : α → Option β} {items : List α}
    {values : List β} :
    items.mapM read = some values ↔
      List.Forall₂ (fun item value => read item = some value) items values := by
  induction items generalizing values with
  | nil =>
      rw [List.mapM_nil, List.forall₂_nil_left_iff]
      exact Option.some_inj.trans eq_comm
  | cons item items ih =>
      rw [List.mapM_cons, List.forall₂_cons_left_iff]
      constructor
      · intro found
        obtain ⟨value, first, later⟩ := Option.bind_eq_some_iff.mp found
        obtain ⟨others, rest, same⟩ := Option.bind_eq_some_iff.mp later
        exact ⟨value, others, first, ih.mp rest, (Option.some.inj same).symm⟩
      · rintro ⟨value, others, first, rest, rfl⟩
        rw [first, ih.mpr rest]
        rfl

/-! ### Names -/

namespace Escape

def isPlain (c : Char) : Bool := 0x20 ≤ c.toNat && c != '"' && c != '\\'

private theorem pieces_plain {c : Char} (plain : isPlain c = true) (rest : List Char) :
    pieces (c :: rest) = (pieces rest).map fun after => .char c :: after := by
  simp only [isPlain, Bool.and_eq_true, decide_eq_true_eq, bne_iff_ne] at plain
  have shown : ¬ c.toNat < 0x20 := Nat.not_lt.mpr plain.1.1
  rw [pieces.eq_def]
  split
  · contradiction
  · rename_i same
    exact absurd (List.cons.inj same).1 plain.2
  · rename_i same
    exact absurd (List.cons.inj same).1 plain.2
  · rename_i same
    exact absurd (List.cons.inj same).1 plain.2
  · rename_i same
    obtain ⟨rfl, rfl⟩ := List.cons.inj same
    exact if_neg shown

theorem pieces_of_plain {raw : List Char} (plain : ∀ c ∈ raw, isPlain c = true) :
    pieces raw = some (raw.map .char) := by
  induction raw with
  | nil => rfl
  | cons c rest ih =>
      obtain ⟨first, later⟩ := List.forall_mem_cons.mp plain
      rw [pieces_plain first, ih later]
      rfl

private theorem text?_chars (raw : List Char) : text? (raw.map .char) = some raw := by
  induction raw with
  | nil => rfl
  | cons c rest ih =>
      rw [List.map_cons, text?, ih]
      rfl

private theorem decode_of_plain {raw : List Char} (plain : ∀ c ∈ raw, isPlain c = true) :
    decode raw = some raw := by
  rw [decode, pieces_of_plain plain]
  exact text?_chars raw

private theorem isClosed_of_plain {raw : List Char} (plain : ∀ c ∈ raw, isPlain c = true) :
    isClosed raw = true := by
  induction raw with
  | nil => rfl
  | cons c rest ih =>
      obtain ⟨first, later⟩ := List.forall_mem_cons.mp plain
      simp only [isPlain, Bool.and_eq_true] at first
      rw [isClosed_cons (bne_iff_ne.mp first.2), first.1.2, ih later]
      rfl

end Escape

theorem sound_of_plain {raw : List Char} (plain : ∀ c ∈ raw, Escape.isPlain c = true) :
    (Token.string raw).Sound :=
  ⟨Escape.isClosed_of_plain plain, Option.isSome_of_eq_some (Escape.pieces_of_plain plain)⟩

/-- The characters between the quotes of a string spell a name. -/
def Names (raw : List Char) (name : String) : Prop := Escape.decode raw = some name.toList

private theorem names_iff {raw : List Char} {name : String} :
    (Escape.decode raw).map String.ofList = some name ↔ Names raw name := by
  rw [Names, Option.map_eq_some_iff]
  constructor
  · rintro ⟨chars, decoded, rfl⟩
    rw [decoded, String.toList_ofList]
  · intro decoded
    exact ⟨name.toList, decoded, String.ofList_toList⟩

/-! ### Records -/

def Gives (field : String × Json) (member : List Char × Json) : Prop :=
  Names member.1 field.1 ∧ member.2 = field.2

def Unknown (names : List String) (member : List Char × Json) : Prop :=
  ∃ name, Names member.1 name ∧ name ∉ names

/-- The spellings of a record with some fields. -/
inductive Record (fields : List (String × Json)) : Json → Prop
  | array : Record fields (.array (fields.map Prod.snd))
  | object {members given others : List (List Char × Json)}
      (shuffled : members.Perm (given ++ others)) (gives : List.Forall₂ Gives fields given)
      (unknown : ∀ member ∈ others, Unknown (fields.map Prod.fst) member) :
      Record fields (.object members)

def isNamed (name : String) (member : List Char × Json) : Bool :=
  Escape.decode member.1 == some name.toList

theorem isNamed_iff {name : String} {member : List Char × Json} :
    isNamed name member = true ↔ Names member.1 name :=
  beq_iff_eq

theorem Names.unique {raw : List Char} {first second : String} (left : Names raw first)
    (right : Names raw second) : first = second :=
  String.toList_inj.mp (Option.some.inj (left.symm.trans right))

theorem Gives.isNamed_iff {field : String × Json} {member : List Char × Json}
    (gives : Gives field member) (name : String) :
    isNamed name member = true ↔ field.1 = name :=
  Json.isNamed_iff.trans ⟨gives.1.unique, fun same => same ▸ gives.1⟩

def Reads (member entry : List Char × Json) : Prop :=
  (Escape.decode member.1).map (fun name => (name, member.2)) = some entry

theorem reads_iff {member entry : List Char × Json} :
    Reads member entry ↔ Escape.decode member.1 = some entry.1 ∧ member.2 = entry.2 := by
  rw [Reads, Option.map_eq_some_iff]
  constructor
  · rintro ⟨name, decoded, rfl⟩
    exact ⟨decoded, rfl⟩
  · rintro ⟨decoded, value⟩
    exact ⟨entry.1, decoded, Prod.ext rfl value⟩

theorem single?_eq_some_iff {members decoded : List (List Char × Json)}
    (reads : List.Forall₂ Reads members decoded) {name : String} {value : Json} :
    single? name decoded = some value ↔
      ∃ raw, members.filter (isNamed name) = [(raw, value)] := by
  have filtered : List.Forall₂ Reads (members.filter (isNamed name))
      (decoded.filter fun entry => entry.1 == name.toList) := by
    refine List.rel_filter (fun member entry read => ?_) reads
    have same : isNamed name member = (entry.1 == name.toList) := by
      unfold isNamed
      rw [(reads_iff.mp read).1]
      rfl
    exact Bool.eq_iff_iff.mp same
  unfold single?
  constructor
  · intro found
    split at found
    · rename_i chars only same
      cases found
      rw [same] at filtered
      obtain ⟨⟨raw, own⟩, rest, read, none, found⟩ := List.forall₂_cons_right_iff.mp filtered
      rw [List.forall₂_nil_right_iff.mp none] at found
      have values : own = value := (reads_iff.mp read).2
      exact ⟨raw, values ▸ found⟩
    · cases found
  · rintro ⟨raw, found⟩
    rw [found] at filtered
    obtain ⟨⟨chars, own⟩, rest, read, none, same⟩ := List.forall₂_cons_left_iff.mp filtered
    rw [List.forall₂_nil_left_iff.mp none] at same
    have values : value = own := (reads_iff.mp read).2
    rw [same, values]

theorem filter_isNamed_of_ne {name other : String} (apart : name ≠ other)
    (members : List (List Char × Json)) :
    (members.filter fun member => !isNamed name member).filter (isNamed other) =
      members.filter (isNamed other) := by
  rw [List.filter_filter]
  refine List.filter_congr fun member _ => ?_
  by_cases isOther : isNamed other member = true
  · have notNamed : ¬ isNamed name member = true :=
      fun named => apart ((isNamed_iff.mp named).unique (isNamed_iff.mp isOther))
    rw [isOther, Bool.eq_false_iff.mpr notNamed]
    rfl
  · rw [Bool.eq_false_iff.mpr isOther, Bool.false_and]

theorem exists_reads_iff {members : List (List Char × Json)} :
    (∃ decoded, List.Forall₂ Reads members decoded) ↔
      ∀ member ∈ members, ∃ name, Names member.1 name := by
  induction members with
  | nil => exact iff_of_true ⟨[], .nil⟩ (List.forall_mem_nil _)
  | cons member members ih =>
      rw [List.forall_mem_cons, ← ih]
      constructor
      · rintro ⟨decoded, reads⟩
        cases reads with
        | cons read later =>
            have spelled := (reads_iff.mp read).1
            exact ⟨⟨String.ofList _, spelled.trans (congrArg some String.toList_ofList.symm)⟩,
              _, later⟩
      · rintro ⟨⟨name, called⟩, decoded, reads⟩
        exact ⟨(name.toList, member.2) :: decoded, .cons (reads_iff.mpr ⟨called, rfl⟩) reads⟩

section Members

variable {fields : List (String × Json)} {members : List (List Char × Json)}

/-- If each field finds one member, these are its members and all others are unknown. -/
theorem exists_given (distinct : (fields.map Prod.fst).Nodup)
    (named : ∀ member ∈ members, ∃ name, Names member.1 name)
    (each : ∀ field ∈ fields, ∃ raw, members.filter (isNamed field.1) = [(raw, field.2)]) :
    ∃ given others, members.Perm (given ++ others) ∧ List.Forall₂ Gives fields given ∧
      ∀ member ∈ others, Unknown (fields.map Prod.fst) member := by
  induction fields generalizing members with
  | nil =>
      refine ⟨[], members, .refl _, .nil, fun member inside => ?_⟩
      obtain ⟨name, spelled⟩ := named member inside
      exact ⟨name, spelled, List.not_mem_nil⟩
  | cons field fields ih =>
      obtain ⟨new, later⟩ := List.nodup_cons.mp distinct
      obtain ⟨⟨raw, found⟩, eachLater⟩ := List.forall_mem_cons.mp each
      have whole := List.filter_append_perm (isNamed field.1) members
      rw [found] at whole
      have spelled : Names raw field.1 := by
        have inside : (raw, field.2) ∈ members.filter (isNamed field.1) := by
          rw [found]
          exact List.mem_singleton_self _
        exact isNamed_iff.mp (List.of_mem_filter inside)
      have kept : ∀ other ∈ fields, ∃ raw,
          (members.filter fun member => !isNamed field.1 member).filter (isNamed other.1) =
            [(raw, other.2)] := by
        intro other inside
        have apart : field.1 ≠ other.1 :=
          fun same => new (List.mem_map.mpr ⟨other, inside, same.symm⟩)
        obtain ⟨raw, foundOther⟩ := eachLater other inside
        exact ⟨raw, (filter_isNamed_of_ne apart members).trans foundOther⟩
      obtain ⟨given, others, shuffled, gives, unknown⟩ :=
        ih later (fun member inside => named member (List.mem_of_mem_filter inside)) kept
      refine ⟨(raw, field.2) :: given, others, ?_, .cons ⟨spelled, rfl⟩ gives, ?_⟩
      · exact whole.symm.trans (shuffled.cons (raw, field.2))
      · intro member inside
        obtain ⟨name, called, absent⟩ := unknown member inside
        have left := shuffled.symm.subset (List.mem_append_right given inside)
        have apart : ¬ isNamed field.1 member = true := by
          simpa using List.of_mem_filter left
        refine ⟨name, called, ?_⟩
        rw [List.map_cons, List.mem_cons, not_or]
        refine ⟨?_, absent⟩
        rintro rfl
        exact apart (isNamed_iff.mpr called)

private theorem filter_fields (distinct : (fields.map Prod.fst).Nodup) {field : String × Json}
    (inside : field ∈ fields) : fields.filter (fun other => other.1 == field.1) = [field] := by
  induction fields with
  | nil => cases inside
  | cons first fields ih =>
      obtain ⟨new, later⟩ := List.nodup_cons.mp distinct
      rcases List.mem_cons.mp inside with rfl | rest
      · have none : fields.filter (fun other => other.1 == field.1) = [] := by
          rw [List.filter_eq_nil_iff]
          intro other member same
          exact new (List.mem_map.mpr ⟨other, member, beq_iff_eq.mp same⟩)
        rw [List.filter_cons, if_pos (beq_self_eq_true field.1), none]
      · have apart : ¬ (first.1 == field.1) = true := by
          intro same
          exact new (List.mem_map.mpr ⟨field, rest, (beq_iff_eq.mp same).symm⟩)
        rw [List.filter_cons, if_neg apart, ih later rest]

private theorem exists_filter_isNamed (distinct : (fields.map Prod.fst).Nodup)
    {given others : List (List Char × Json)} (shuffled : members.Perm (given ++ others))
    (gives : List.Forall₂ Gives fields given)
    (unknown : ∀ member ∈ others, Unknown (fields.map Prod.fst) member)
    {field : String × Json} (inside : field ∈ fields) :
    ∃ raw, members.filter (isNamed field.1) = [(raw, field.2)] := by
  have none : others.filter (isNamed field.1) = [] := by
    rw [List.filter_eq_nil_iff]
    intro member other named
    obtain ⟨name, called, absent⟩ := unknown member other
    rw [called.unique (isNamed_iff.mp named)] at absent
    exact absent (List.mem_map_of_mem inside)
  have filtered : List.Forall₂ Gives (fields.filter fun other => other.1 == field.1)
      (given.filter (isNamed field.1)) := by
    refine List.rel_filter (fun other member gives => ?_) gives
    exact beq_iff_eq.trans (gives.isNamed_iff field.1).symm
  rw [filter_fields distinct inside] at filtered
  obtain ⟨⟨raw, value⟩, rest, ⟨_, same⟩, empty, found⟩ :=
    List.forall₂_cons_left_iff.mp filtered
  rw [List.forall₂_nil_left_iff.mp empty] at found
  have matching := shuffled.filter (isNamed field.1)
  rw [List.filter_append, none, List.append_nil, found, List.perm_singleton] at matching
  have values : value = field.2 := same
  exact ⟨raw, values ▸ matching⟩

private theorem exists_names_of_shuffled {given others : List (List Char × Json)}
    (shuffled : members.Perm (given ++ others)) (gives : List.Forall₂ Gives fields given)
    (unknown : ∀ member ∈ others, Unknown (fields.map Prod.fst) member) :
    ∀ member ∈ members, ∃ name, Names member.1 name := by
  intro member inside
  rcases List.mem_append.mp (shuffled.subset inside) with own | other
  · obtain ⟨place, bound, rfl⟩ := List.getElem_of_mem own
    have length := gives.length_eq
    exact ⟨_, (gives.get (length ▸ bound) bound).1⟩
  · obtain ⟨name, called, _⟩ := unknown member other
    exact ⟨name, called⟩

end Members

theorem fields?_eq_some_iff {fields : List (String × Json)}
    (distinct : (fields.map Prod.fst).Nodup) {json : Json} :
    json.fields? (fields.map Prod.fst) = some (fields.map Prod.snd) ↔ Record fields json := by
  cases json with
  | array items =>
      rw [fields?]
      constructor
      · intro found
        split at found
        · rw [Option.some.inj found]
          exact .array
        · cases found
      · intro record
        cases record with
        | array => rw [if_pos (by simp)]
  | object members =>
      have found : (Json.object members).fields? (fields.map Prod.fst) =
            some (fields.map Prod.snd) ↔
          ∃ decoded, List.Forall₂ Reads members decoded ∧
            ∀ field ∈ fields, single? field.1 decoded = some field.2 := by
        simp only [fields?, Option.bind_eq_bind, Option.bind_eq_some_iff, mapM_eq_some_iff,
          List.forall₂_map_left_iff, List.forall₂_map_right_iff, List.forall₂_same]
        rfl
      rw [found]
      constructor
      · rintro ⟨decoded, reads, each⟩
        have named := exists_reads_iff.mp ⟨decoded, reads⟩
        obtain ⟨given, others, shuffled, gives, unknown⟩ := exists_given distinct named
          fun field inside => (single?_eq_some_iff reads).mp (each field inside)
        exact .object shuffled gives unknown
      · intro record
        cases record with
        | object shuffled gives unknown =>
            have named := exists_names_of_shuffled shuffled gives unknown
            obtain ⟨decoded, reads⟩ := exists_reads_iff.mpr named
            exact ⟨decoded, reads, fun field inside => (single?_eq_some_iff reads).mpr
              (exists_filter_isNamed distinct shuffled gives unknown inside)⟩
  | _ =>
      constructor
      · intro found
        cases found
      · intro record
        cases record

theorem length_of_fields? {names : List String} {json : Json} {values : List Json}
    (found : json.fields? names = some values) : names.length = values.length := by
  cases json with
  | array items =>
      obtain ⟨length, same⟩ := Option.ite_none_right_eq_some.mp found
      rw [← Option.some.inj same, length]
  | object members =>
      obtain ⟨decoded, _, each⟩ := Option.bind_eq_some_iff.mp found
      exact (mapM_eq_some_iff.mp each).length_eq
  | _ => cases found

theorem fields?_singleton_iff {name : String} {value json : Json} :
    json.fields? [name] = some [value] ↔ Record [(name, value)] json :=
  @fields?_eq_some_iff [(name, value)] (List.pairwise_singleton _ _) json

/-! ### Booleans and numbers -/

theorem boolean?_eq_some_iff {json : Json} {value : Bool} :
    json.boolean? = some value ↔ json = .boolean value := by
  cases json with
  | boolean own => exact Option.some_inj.trans (Json.boolean.injEq own value).to_iff.symm
  | _ =>
      constructor
      · intro found
        cases found
      · intro same
        cases same

theorem mapM_boolean?_eq_some_iff {items : List Json} {values : List Bool} :
    items.mapM boolean? = some values ↔ items = values.map .boolean := by
  rw [mapM_eq_some_iff]
  simp only [boolean?_eq_some_iff]
  rw [← List.forall₂_map_right_iff (R := Eq), List.forall₂_eq_eq_eq]

inductive Numeral (number : Nat) : Json → Prop
  | digits {literal : List Char} (digits : ∀ c ∈ literal, c.isDigit = true)
      (value : Nat.ofDigitChars 10 literal 0 = number) : Numeral number (.number literal)

theorem below?_eq_some_iff {bound number : Nat} {json : Json} :
    json.below? bound = some number ↔ Numeral number json ∧ number < bound := by
  cases json with
  | number literal =>
      simp only [below?, Option.ite_none_right_eq_some, List.all_eq_true, Option.some_inj]
      constructor
      · rintro ⟨⟨digits, small⟩, rfl⟩
        exact ⟨.digits digits rfl, small⟩
      · rintro ⟨numeral, small⟩
        cases numeral with
        | digits digits value => exact ⟨⟨digits, value.symm ▸ small⟩, value⟩
  | _ =>
      constructor
      · intro found
        cases found
      · rintro ⟨numeral, _⟩
        cases numeral

/-! ### Variants -/

inductive Bare (name : String) : Json → Prop
  | name {raw : List Char} (names : Names raw name) : Bare name (.string raw)
  | null {raw : List Char} (names : Names raw name) : Bare name (.object [(raw, .null)])

inductive Carrying (name : String) (carried : Json) : Json → Prop
  | member {raw : List Char} (names : Names raw name) :
      Carrying name carried (.object [(raw, carried)])

theorem variant?_eq_some_iff {json : Json} {name : String} {carried : Option Json} :
    json.variant? = some (name, carried) ↔
      ∃ raw, Names raw name ∧
        json = carried.elim (.string raw) fun value => .object [(raw, value)] := by
  have named (raw : List Char) (own : Option Json) :
      (Escape.decode raw).map (fun name => (String.ofList name, own)) = some (name, carried) ↔
        Names raw name ∧ own = carried := by
    rw [← names_iff]
    simp [Option.map_eq_some_iff, and_assoc, ← exists_and_right]
  unfold variant?
  split
  · rw [named]
    cases carried <;> simp
  · rw [named]
    cases carried <;> simp
  · rename_i noString noMember
    constructor
    · intro found
      cases found
    · rintro ⟨raw, _, same⟩
      cases carried with
      | none => exact absurd same (noString raw)
      | some value => exact absurd same (noMember raw value)

theorem carrying_iff {json carried : Json} {name : String} :
    json.variant? = some (name, some carried) ↔ Carrying name carried json := by
  rw [variant?_eq_some_iff]
  constructor
  · rintro ⟨raw, names, rfl⟩
    exact .member names
  · intro carrying
    cases carrying with
    | member names => exact ⟨_, names, rfl⟩

theorem bare_iff {json : Json} {name : String} :
    (∃ carried, json.variant? = some (name, carried) ∧ carriesNothing carried = true) ↔
      Bare name json := by
  simp only [variant?_eq_some_iff]
  constructor
  · rintro ⟨carried, ⟨raw, names, rfl⟩, nothing⟩
    unfold carriesNothing at nothing
    split at nothing
    · exact .name names
    · exact .null names
    · cases nothing
  · intro bare
    cases bare with
    | name names => exact ⟨none, ⟨_, names, rfl⟩, rfl⟩
    | null names => exact ⟨some .null, ⟨_, names, rfl⟩, rfl⟩

/-! ### What is written -/

def isPlainName (name : String) : Bool := name.toList.all Escape.isPlain

theorem names_of_plain {name : String} (plain : isPlainName name = true) :
    Names name.toList name :=
  Escape.decode_of_plain (List.all_eq_true.mp plain)

theorem record_spelled {fields : List (String × Json)}
    (plain : ∀ field ∈ fields, isPlainName field.1 = true) : Record fields (record fields) := by
  refine @Record.object _ _ _ [] (.of_eq (List.append_nil _).symm) ?_ (List.forall_mem_nil _)
  rw [List.forall₂_map_right_iff, List.forall₂_same]
  exact fun field inside => ⟨names_of_plain (plain field inside), rfl⟩

theorem sound_record {fields : List (String × Json)}
    (plain : ∀ field ∈ fields, isPlainName field.1 = true)
    (sound : ∀ field ∈ fields, field.2.Sound) : (record fields).Sound := by
  rw [record, sound_object, List.forall_mem_map]
  exact fun field inside =>
    ⟨sound_of_plain (List.all_eq_true.mp (plain field inside)), sound field inside⟩

theorem record_spelled_singleton {name : String} (plain : isPlainName name = true)
    (value : Json) : Record [(name, value)] (record [(name, value)]) := by
  refine record_spelled ?_
  rw [List.forall_mem_singleton]
  exact plain

theorem sound_record_singleton {name : String} (plain : isPlainName name = true) {value : Json}
    (sound : value.Sound) : (record [(name, value)]).Sound := by
  refine sound_record ?_ ?_
  · rw [List.forall_mem_singleton]
    exact plain
  · rw [List.forall_mem_singleton]
    exact sound

theorem variant_spelled {name : String} (plain : isPlainName name = true) :
    Bare name (variant name) :=
  .name (names_of_plain plain)

theorem carrying_spelled {name : String} (plain : isPlainName name = true) (carried : Json) :
    Carrying name carried (record [(name, carried)]) :=
  .member (names_of_plain plain)

theorem sound_variant {name : String} (plain : isPlainName name = true) :
    (variant name).Sound :=
  List.forall_mem_singleton.mpr (sound_of_plain (List.all_eq_true.mp plain))

theorem sound_boolean (value : Bool) : (boolean value).Sound :=
  List.forall_mem_singleton.mpr trivial

theorem numeral_ofNat (number : Nat) : Numeral number (ofNat number) :=
  .digits (fun _ member => Nat.isDigit_of_mem_toDigits (by decide) (by decide) member)
    Nat.ofDigitChars_ten_toDigits

theorem exists_toDigits_eq {number : Nat} (positive : 0 < number) :
    ∃ c rest, Nat.toDigits 10 number = c :: rest ∧ c ≠ '0' := by
  induction number using Nat.strongRecOn with
  | ind number ih =>
      by_cases single : number < 10
      · have digits : ∀ digit < 10, 0 < digit → digit.digitChar ≠ '0' := by decide
        exact ⟨_, _, Nat.toDigits_of_lt_base single, digits number single positive⟩
      · have large : 10 ≤ number := Nat.le_of_not_lt single
        obtain ⟨c, rest, shown, notZero⟩ :=
          ih (number / 10) (Nat.div_lt_self positive (by decide)) (Nat.div_pos large (by decide))
        rw [Nat.toDigits_of_base_le (by decide) large, shown]
        exact ⟨c, _, rfl, notZero⟩

private theorem isLiteral_toDigits (number : Nat) :
    Number.isLiteral (Nat.toDigits 10 number) = true := by
  rcases Nat.eq_zero_or_pos number with rfl | positive
  · rfl
  obtain ⟨c, rest, shown, notZero⟩ := exists_toDigits_eq positive
  have digits : ∀ digit ∈ Nat.toDigits 10 number, digit.isDigit = true :=
    fun _ member => Nat.isDigit_of_mem_toDigits (by decide) (by decide) member
  rw [shown] at digits ⊢
  obtain ⟨first, later⟩ := List.forall_mem_cons.mp digits
  have noSign : Number.unsigned (c :: rest) = c :: rest := by
    unfold Number.unsigned
    split
    · rename_i same
      cases same
      cases first
    · rfl
  have nothing : rest.dropWhile Char.isDigit = [] := by
    rw [List.dropWhile_eq_nil_iff]
    exact later
  unfold Number.isLiteral
  rw [noSign]
  split
  · rename_i same
    exact absurd (List.cons.inj same).1 notZero
  · rename_i same
    obtain ⟨rfl, rfl⟩ := List.cons.inj same
    rw [first, nothing]
    rfl
  · rename_i same
    cases same

theorem sound_ofNat (number : Nat) : (ofNat number).Sound :=
  List.forall_mem_singleton.mpr (isLiteral_toDigits number)

end Chip8.Json
