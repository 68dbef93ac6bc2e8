import Chip8.Json.Syntax
import Chip8.Proofs.Scanning

/-!
The tokens of a JSON value. A reader that takes token after token, with a stack of what is open,
finds a value in the tokens that write it and in no others. So a text is read as a value exactly if
it holds the tokens of the value, and the text that is written for a value is one of those.
-/

namespace Chip8.Json

/-! ### Parts of a value -/

theorem itemTokens_eq (items : List Json) : itemTokens items = items.map tokens := by
  induction items with
  | nil => rfl
  | cons item items ih => rw [itemTokens, ih, List.map_cons]

def memberToken (member : List Char × Json) : List Token :=
  .string member.1 :: .colon :: member.2.tokens

theorem memberTokens_eq (members : List (List Char × Json)) :
    memberTokens members = members.map memberToken := by
  induction members with
  | nil => rfl
  | cons member members ih =>
      rw [memberTokens, ih, List.map_cons]
      rfl

theorem separated_cons (first : List Token) (rest : List (List Token)) :
    separated (first :: rest) = first ++ rest.flatMap fun part => .comma :: part := by
  induction rest generalizing first with
  | nil => simp [separated]
  | cons second rest ih =>
      have split : separated (first :: second :: rest) =
          first ++ .comma :: separated (second :: rest) := rfl
      rw [split, ih, List.flatMap_cons]
      rfl

theorem separated_concat (parts : List (List Token)) (last : List Token) :
    separated (parts ++ [last]) = (parts.flatMap fun part => part ++ [.comma]) ++ last := by
  induction parts with
  | nil => rfl
  | cons first parts ih =>
      have split : separated (first :: (parts ++ [last])) =
          first ++ .comma :: separated (parts ++ [last]) := by
        cases parts <;> rfl
      rw [List.cons_append, split, ih, List.flatMap_cons]
      simp

/-- What holds of a value if it holds of its parts holds of all values. -/
theorem induction_on_parts {holds : Json → Prop} (null : holds .null)
    (boolean : ∀ value, holds (.boolean value)) (number : ∀ literal, holds (.number literal))
    (string : ∀ raw, holds (.string raw))
    (array : ∀ items, (∀ item ∈ items, holds item) → holds (.array items))
    (object : ∀ members : List (List Char × Json), (∀ member ∈ members, holds member.2) →
      holds (.object members)) (json : Json) : holds json := by
  match json with
  | .null => exact null
  | .boolean value => exact boolean value
  | .number literal => exact number literal
  | .string raw => exact string raw
  | .array items =>
      exact array items fun item member =>
        induction_on_parts null boolean number string array object item
  | .object members =>
      exact object members fun entry member =>
        induction_on_parts null boolean number string array object entry.2
termination_by sizeOf json
decreasing_by
  · have smaller := List.sizeOf_lt_of_mem member
    simp only [Json.array.sizeOf_spec]
    omega
  · have smaller := List.sizeOf_lt_of_mem member
    have part : sizeOf entry.2 < sizeOf entry := by
      rcases entry with ⟨name, value⟩
      simp only [Prod.mk.sizeOf_spec]
      omega
    simp only [Json.object.sizeOf_spec]
    omega

/-! ### Tokens that have been taken -/

def Frame.opening : Frame → List Token
  | .array items =>
      .openArray :: items.reverse.flatMap fun item => item.tokens ++ [.comma]
  | .object members name =>
      .openObject :: (members.reverse.flatMap fun member => memberToken member ++ [.comma]) ++
        [.string name, .colon]

def opening (frames : List Frame) : List Token := frames.reverse.flatMap Frame.opening

namespace Expected

/-- The tokens that lead to an expectation. -/
def taken : Expected → List Token
  | .anyValue frames => opening frames
  | .firstItem frames => opening frames ++ [.openArray]
  | .firstName frames => opening frames ++ [.openObject]
  | .nextName members frames =>
      opening frames ++ .openObject ::
        members.reverse.flatMap fun member => memberToken member ++ [.comma]
  | .colon members name frames =>
      opening frames ++ .openObject ::
        (members.reverse.flatMap fun member => memberToken member ++ [.comma]) ++ [.string name]
  | .complete value frames => opening frames ++ value.tokens

end Expected

theorem opening_cons (frame : Frame) (frames : List Frame) :
    opening (frame :: frames) = opening frames ++ frame.opening := by
  simp [opening]

private theorem tokens_array (items : List Json) (last : Json) :
    (Json.array (items ++ [last])).tokens =
      .openArray :: (items.flatMap fun item => item.tokens ++ [.comma]) ++
        last.tokens ++ [.closeArray] := by
  rw [tokens, itemTokens_eq, List.map_append, List.map_singleton, separated_concat,
    List.flatMap_map]
  simp

private theorem tokens_object (members : List (List Char × Json)) (last : List Char × Json) :
    (Json.object (members ++ [last])).tokens =
      .openObject :: (members.flatMap fun member => memberToken member ++ [.comma]) ++
        memberToken last ++ [.closeObject] := by
  rw [tokens, memberTokens_eq, List.map_append, List.map_singleton, separated_concat,
    List.flatMap_map]
  simp

namespace Expected

theorem taken_enter {frames : List Frame} {token : Token} {next : Expected}
    (entered : enter frames token = some next) : next.taken = opening frames ++ [token] := by
  cases token with
  | null => cases entered; rfl
  | boolean value => cases entered; rfl
  | number literal => cases entered; rfl
  | string raw => cases entered; rfl
  | openArray => cases entered; rfl
  | openObject => cases entered; rfl
  | _ => cases entered

private theorem taken_step {expected next : Expected} {token : Token}
    (stepped : expected.step token = some next) : next.taken = expected.taken ++ [token] := by
  unfold step at stepped
  split at stepped
  · exact taken_enter stepped
  · cases stepped
    simp [taken, tokens, itemTokens, separated]
  · rw [taken_enter stepped, opening_cons]
    rfl
  · cases stepped
    simp [taken, tokens, memberTokens, separated]
  · cases stepped
    simp [taken]
  · cases stepped
    simp [taken]
  · cases stepped
    simp [taken, opening_cons, Frame.opening]
  · cases stepped
    simp [taken, opening_cons, Frame.opening]
  · cases stepped
    simp [taken, opening_cons, Frame.opening, tokens_array]
  · cases stepped
    simp [taken, opening_cons, Frame.opening, memberToken]
  · cases stepped
    simp [taken, opening_cons, Frame.opening, tokens_object, memberToken]
  · cases stepped

private theorem taken_foldlM {expected last : Expected} {tokens : List Token}
    (stepped : tokens.foldlM step expected = some last) :
    last.taken = expected.taken ++ tokens := by
  induction tokens generalizing expected with
  | nil =>
      cases stepped
      rw [List.append_nil]
  | cons token tokens ih =>
      rw [List.foldlM_cons] at stepped
      obtain ⟨next, first, later⟩ := Option.bind_eq_some_iff.mp stepped
      rw [ih later, taken_step first, List.append_assoc, List.singleton_append]

end Expected

theorem eq_tokens_of_ofTokens? {tokens : List Token} {json : Json}
    (found : ofTokens? tokens = some json) : tokens = json.tokens := by
  obtain ⟨last, stepped, finished⟩ := Option.bind_eq_some_iff.mp found
  have whole := Expected.taken_foldlM stepped
  unfold Expected.finish at finished
  split at finished
  · cases finished
    exact whole.symm
  · cases finished

/-! ### Taking the tokens of a value -/

theorem foldlM_of_step {expected next : Expected} {token : Token} (rest : List Token)
    (stepped : expected.step token = some next) :
    (token :: rest).foldlM Expected.step expected = rest.foldlM Expected.step next := by
  rw [List.foldlM_cons, stepped]
  rfl

/-- Wherever a value is expected, the reader comes through its tokens. -/
def Passes (json : Json) : Prop :=
  ∀ frames : List Frame,
    json.tokens.foldlM Expected.step (.anyValue frames) = some (.complete json frames)

theorem Passes.foldlM_append {json : Json} (passes : Passes json) (frames : List Frame)
    (rest : List Token) :
    (json.tokens ++ rest).foldlM Expected.step (.anyValue frames) =
      rest.foldlM Expected.step (.complete json frames) := by
  rw [List.foldlM_append, passes frames]
  rfl

theorem exists_tokens_eq (json : Json) :
    ∃ first rest, json.tokens = first :: rest ∧ first ≠ .closeArray := by
  have different {token : Token} (other : decide (token = .closeArray) = false) :
      token ≠ .closeArray := of_decide_eq_false other
  cases json with
  | null => exact ⟨_, _, rfl, different rfl⟩
  | boolean value => exact ⟨_, _, rfl, different rfl⟩
  | number literal => exact ⟨_, _, rfl, different rfl⟩
  | string raw => exact ⟨_, _, rfl, different rfl⟩
  | array items => exact ⟨_, _, rfl, different rfl⟩
  | object members => exact ⟨_, _, rfl, different rfl⟩

private theorem step_firstItem {token : Token} (notEnd : token ≠ .closeArray)
    (frames : List Frame) :
    Expected.step (.firstItem frames) token =
      Expected.step (.anyValue (.array [] :: frames)) token := by
  cases token with
  | closeArray => exact absurd rfl notEnd
  | _ => rfl

private theorem Passes.foldlM_first {json : Json} (passes : Passes json) (frames : List Frame)
    (rest : List Token) :
    (json.tokens ++ rest).foldlM Expected.step (.firstItem frames) =
      rest.foldlM Expected.step (.complete json (.array [] :: frames)) := by
  rw [← passes.foldlM_append]
  obtain ⟨first, others, tokens, notEnd⟩ := exists_tokens_eq json
  rw [tokens, List.cons_append, List.foldlM_cons, List.foldlM_cons, step_firstItem notEnd]

private theorem foldlM_items {items : List Json} (passes : ∀ item ∈ items, Passes item)
    (done : List Json) (value : Json) (frames : List Frame) :
    (((items.map tokens).flatMap fun part => Token.comma :: part) ++ [Token.closeArray]).foldlM
        Expected.step (.complete value (.array done :: frames)) =
      some (.complete (.array (done.reverse ++ value :: items)) frames) := by
  induction items generalizing done value with
  | nil => simp [Expected.step]
  | cons item items ih =>
      obtain ⟨first, rest⟩ := List.forall_mem_cons.mp passes
      have whole : done.reverse ++ value :: item :: items =
          (value :: done).reverse ++ item :: items := by
        simp
      rw [List.map_cons, List.flatMap_cons, List.append_assoc, List.cons_append,
        foldlM_of_step _ rfl, first.foldlM_append, ih rest, whole]

private theorem foldlM_members {members : List (List Char × Json)}
    (passes : ∀ member ∈ members, Passes member.2) (done : List (List Char × Json))
    (name : List Char) (value : Json) (frames : List Frame) :
    (((members.map memberToken).flatMap fun part => Token.comma :: part) ++
        [Token.closeObject]).foldlM
        Expected.step (.complete value (.object done name :: frames)) =
      some (.complete (.object (done.reverse ++ (name, value) :: members)) frames) := by
  induction members generalizing done name value with
  | nil => simp [Expected.step]
  | cons member members ih =>
      obtain ⟨first, rest⟩ := List.forall_mem_cons.mp passes
      have whole : done.reverse ++ (name, value) :: member :: members =
          ((name, value) :: done).reverse ++ (member.1, member.2) :: members := by
        simp
      rw [List.map_cons, List.flatMap_cons, List.append_assoc, List.cons_append, memberToken,
        foldlM_of_step _ rfl, List.cons_append, foldlM_of_step _ rfl, List.cons_append,
        foldlM_of_step _ rfl, first.foldlM_append, ih rest, whole]

theorem passes (json : Json) : Passes json := by
  induction json using induction_on_parts with
  | null => exact fun frames => rfl
  | boolean value => exact fun frames => rfl
  | number literal => exact fun frames => rfl
  | string raw => exact fun frames => rfl
  | array items ih =>
      intro frames
      rw [tokens, itemTokens_eq, List.cons_append, foldlM_of_step _ rfl]
      cases items with
      | nil => rfl
      | cons item items =>
          obtain ⟨first, rest⟩ := List.forall_mem_cons.mp ih
          rw [List.map_cons, separated_cons, List.append_assoc, first.foldlM_first,
            foldlM_items rest]
          rfl
  | object members ih =>
      intro frames
      rw [tokens, memberTokens_eq, List.cons_append, foldlM_of_step _ rfl]
      cases members with
      | nil => rfl
      | cons member members =>
          obtain ⟨first, rest⟩ := List.forall_mem_cons.mp ih
          rw [List.map_cons, separated_cons, List.append_assoc, memberToken, List.cons_append,
            foldlM_of_step _ rfl, List.cons_append, foldlM_of_step _ rfl, first.foldlM_append,
            foldlM_members rest]
          rfl

theorem ofTokens?_eq_some_iff {tokens : List Token} {json : Json} :
    ofTokens? tokens = some json ↔ tokens = json.tokens := by
  constructor
  · exact eq_tokens_of_ofTokens?
  · rintro rfl
    rw [ofTokens?, passes json]
    rfl

/-- A text is read as a value exactly if it holds the tokens of the value. -/
theorem parse?_eq_some_iff {text : String} {json : Json} :
    parse? text = some json ↔ Spaced json.tokens text.toList := by
  rw [parse?, Option.bind_eq_some_iff]
  simp only [scan_eq_some_iff, ofTokens?_eq_some_iff, exists_eq_right]

/-! ### The text that is written for a value -/

def Sound (json : Json) : Prop := ∀ token ∈ json.tokens, token.Sound

/-- The tokens can stand in a text without blanks. -/
def Compact (tokens : List Token) : Prop := Spaced tokens (tokens.flatMap Token.chars)

def Stops (tokens : List Token) : Prop := ∀ token ∈ tokens.head?, token.isAtom = false

/-- The tokens stay compact when they are put before others. -/
def Joins (part : List Token) : Prop :=
  ∀ tokens, Stops tokens → Compact tokens → Compact (part ++ tokens)

private theorem endsAt_of_stops {tokens : List Token} (stops : Stops tokens) (token : Token) :
    token.EndsAt (tokens.flatMap Token.chars) := by
  intro _ c member
  cases tokens with
  | nil => cases member
  | cons next others =>
      have single : next.isAtom = false := stops next (Option.mem_some_self next)
      rw [List.flatMap_cons] at member
      cases next with
      | openObject => cases member; rfl
      | closeObject => cases member; rfl
      | openArray => cases member; rfl
      | closeArray => cases member; rfl
      | colon => cases member; rfl
      | comma => cases member; rfl
      | string raw => cases member; rfl
      | _ => cases single

theorem Compact.sign {tokens : List Token} (compact : Compact tokens) (token : Token)
    (single : token.isAtom = false) (sound : token.Sound) : Compact (token :: tokens) :=
  .token token sound (endsAt_of_single single _) compact

theorem Compact.atom {tokens : List Token} (compact : Compact tokens) (stops : Stops tokens)
    {token : Token} (sound : token.Sound) : Compact (token :: tokens) :=
  .token token sound (endsAt_of_stops stops token) compact

theorem stops_sign {token : Token} (single : token.isAtom = false) (tokens : List Token) :
    Stops (token :: tokens) := by
  intro first member
  cases member
  exact single

theorem joins_singleton {token : Token} (sound : token.Sound) : Joins [token] :=
  fun _ stops compact => compact.atom stops sound

private theorem compact_parts {parts : List (List Token)} (joins : ∀ part ∈ parts, Joins part)
    {tokens : List Token} (stops : Stops tokens) (compact : Compact tokens) :
    Stops ((parts.flatMap fun part => Token.comma :: part) ++ tokens) ∧
      Compact ((parts.flatMap fun part => Token.comma :: part) ++ tokens) := by
  induction parts with
  | nil => exact ⟨stops, compact⟩
  | cons part parts ih =>
      obtain ⟨first, rest⟩ := List.forall_mem_cons.mp joins
      obtain ⟨stopsRest, compactRest⟩ := ih rest
      rw [List.flatMap_cons, List.append_assoc]
      exact ⟨stops_sign rfl _, (first _ stopsRest compactRest).sign .comma rfl trivial⟩

theorem compact_separated {parts : List (List Token)} (joins : ∀ part ∈ parts, Joins part)
    (close : Token) (single : close.isAtom = false) (sound : close.Sound) {tokens : List Token}
    (compact : Compact tokens) : Compact (separated parts ++ close :: tokens) := by
  have closed : Compact (close :: tokens) := compact.sign close single sound
  cases parts with
  | nil => exact closed
  | cons part parts =>
      obtain ⟨first, rest⟩ := List.forall_mem_cons.mp joins
      obtain ⟨stops, later⟩ := compact_parts rest (stops_sign single tokens) closed
      rw [separated_cons, List.append_assoc]
      exact first _ stops later

theorem forall_mem_separated {holds : Token → Prop} (comma : holds .comma)
    {parts : List (List Token)} :
    (∀ token ∈ separated parts, holds token) ↔ ∀ part ∈ parts, ∀ token ∈ part, holds token := by
  cases parts with
  | nil => exact ⟨fun _ part member => absurd member List.not_mem_nil,
      fun _ token member => absurd member List.not_mem_nil⟩
  | cons first rest =>
      simp only [separated_cons, List.mem_append, List.mem_flatMap, List.mem_cons]
      constructor
      · rintro all part (rfl | later) token member
        · exact all token (.inl member)
        · exact all token (.inr ⟨part, later, .inr member⟩)
      · rintro all token (member | ⟨part, later, rfl | member⟩)
        · exact all first (.inl rfl) token member
        · exact comma
        · exact all part (.inr later) token member

theorem sound_array {items : List Json} :
    Sound (.array items) ↔ ∀ item ∈ items, item.Sound := by
  simp only [Sound, tokens, itemTokens_eq, List.cons_append, List.forall_mem_cons,
    List.forall_mem_append, @forall_mem_separated Token.Sound trivial, List.forall_mem_map]
  exact ⟨fun sound => sound.2.1,
    fun sound => ⟨trivial, sound, trivial, List.forall_mem_nil _⟩⟩

theorem sound_object {members : List (List Char × Json)} :
    Sound (.object members) ↔
      ∀ member ∈ members, (Token.string member.1).Sound ∧ member.2.Sound := by
  simp only [Sound, tokens, memberTokens_eq, List.cons_append, List.forall_mem_cons,
    List.forall_mem_append, @forall_mem_separated Token.Sound trivial, List.forall_mem_map,
    memberToken]
  constructor
  · intro sound member inside
    exact ⟨(sound.2.1 member inside).1, (sound.2.1 member inside).2.2⟩
  · intro sound
    exact ⟨trivial, fun member inside =>
      ⟨(sound member inside).1, trivial, (sound member inside).2⟩,
      trivial, List.forall_mem_nil _⟩

theorem Sound.joins {json : Json} (sound : json.Sound) : Joins json.tokens := by
  induction json using induction_on_parts with
  | null => exact joins_singleton trivial
  | boolean value => exact joins_singleton trivial
  | number literal => exact joins_singleton (List.forall_mem_singleton.mp sound)
  | string raw => exact joins_singleton (List.forall_mem_singleton.mp sound)
  | array items ih =>
      have each : ∀ part ∈ items.map tokens, Joins part := by
        rw [List.forall_mem_map]
        exact fun item member => ih item member (sound_array.mp sound item member)
      intro others _ compact
      rw [tokens, itemTokens_eq, List.append_assoc]
      exact (compact_separated each .closeArray rfl trivial compact).sign .openArray rfl trivial
  | object members ih =>
      have each : ∀ part ∈ members.map memberToken, Joins part := by
        rw [List.forall_mem_map]
        intro member inside others stops compact
        obtain ⟨name, value⟩ := sound_object.mp sound member inside
        exact ((ih member inside value others stops compact).sign .colon rfl trivial).sign
          (.string member.1) rfl name
      intro others _ compact
      rw [tokens, memberTokens_eq, List.append_assoc]
      exact (compact_separated each .closeObject rfl trivial compact).sign .openObject rfl trivial

theorem Sound.spaced_text {json : Json} (sound : json.Sound) :
    Spaced json.tokens json.text.toList := by
  have noTokens : Stops [] := fun token member => by cases member
  have compact := sound.joins [] noTokens .empty
  rw [List.append_nil] at compact
  rw [text, String.toList_ofList]
  exact compact

/-- A value comes back from the text that is written for it. -/
theorem Sound.parse?_text {json : Json} (sound : json.Sound) : parse? json.text = some json :=
  parse?_eq_some_iff.mpr sound.spaced_text

end Chip8.Json
