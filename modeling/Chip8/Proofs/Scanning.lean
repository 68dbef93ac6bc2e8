import Chip8.Json.Token

/-!
The texts of a list of tokens. Blanks may stand anywhere between tokens, and nothing else may; two
tokens made of letters and digits must be kept apart by one. The scanner finds a list of tokens in
exactly these texts.
-/

namespace Chip8.Json

/-! ### Tokens in a text -/

namespace Escape

/-- Every quote stands behind a backslash, and the last backslash has a character behind it. -/
def isClosed : List Char → Bool
  | [] => true
  | c :: rest =>
      if c = '\\' then
        match rest with
        | [] => false
        | _ :: later => isClosed later
      else c != '"' && isClosed rest

theorem isClosed_cons {c : Char} (single : c ≠ '\\') (rest : List Char) :
    isClosed (c :: rest) = (c != '"' && isClosed rest) := by
  rw [isClosed.eq_def]
  exact if_neg single

end Escape

namespace Token

def isAtom : Token → Bool
  | .null => true
  | .boolean _ => true
  | .number _ => true
  | _ => false

def Sound : Token → Prop
  | .number literal => Number.isLiteral literal = true
  | .string raw => Escape.isClosed raw = true ∧ (Escape.pieces raw).isSome = true
  | _ => True

/-- The token ends where a text begins. -/
def EndsAt (token : Token) (text : List Char) : Prop :=
  token.isAtom = true → ∀ c ∈ text.head?, Reading.isAtomChar c = false

end Token

/-- A text that holds some tokens, with blanks between them. -/
inductive Spaced : List Token → List Char → Prop
  | empty : Spaced [] []
  | blank {tokens : List Token} {text : List Char} (c : Char)
      (isBlank : Reading.isBlank c = true) (rest : Spaced tokens text) : Spaced tokens (c :: text)
  | token {tokens : List Token} {text : List Char} (token : Token) (sound : token.Sound)
      (ends : token.EndsAt text) (rest : Spaced tokens text) :
      Spaced (token :: tokens) (token.chars ++ text)

/-! ### Numbers -/

namespace Number

theorem isAtomChar_of_isDigit {c : Char} (digit : c.isDigit = true) :
    Reading.isAtomChar c = true := by
  rw [Reading.isAtomChar, Char.isAlphanum, digit, Bool.or_true, Bool.true_or, Bool.true_or,
    Bool.true_or]

def Plain (chars : List Char) : Prop := ∀ c ∈ chars, Reading.isAtomChar c = true

theorem plain_cons {c : Char} {rest : List Char} (first : Reading.isAtomChar c = true)
    (plain : Plain rest) : Plain (c :: rest) :=
  List.forall_mem_cons.mpr ⟨first, plain⟩

theorem plain_of_dropWhile {chars : List Char}
    (plain : Plain (chars.dropWhile Char.isDigit)) : Plain chars := by
  intro c member
  rw [← List.takeWhile_append_dropWhile (p := Char.isDigit) (l := chars), List.mem_append] at member
  rcases member with digit | later
  · exact isAtomChar_of_isDigit (List.all_eq_true.mp List.all_takeWhile c digit)
  · exact plain c later

theorem plain_of_isDigits {chars : List Char} (digits : isDigits chars = true) : Plain chars := by
  rw [isDigits, Bool.and_eq_true, List.all_eq_true] at digits
  exact fun c member => isAtomChar_of_isDigit (digits.2 c member)

theorem plain_of_isExponent {chars : List Char} (exponent : isExponent chars = true) :
    Plain chars := by
  unfold isExponent at exponent
  split at exponent
  · exact fun c member => absurd member List.not_mem_nil
  · exact plain_cons rfl (plain_cons rfl (plain_of_isDigits exponent))
  · exact plain_cons rfl (plain_cons rfl (plain_of_isDigits exponent))
  · exact plain_cons rfl (plain_cons rfl (plain_of_isDigits exponent))
  · exact plain_cons rfl (plain_cons rfl (plain_of_isDigits exponent))
  · exact plain_cons rfl (plain_of_isDigits exponent)
  · exact plain_cons rfl (plain_of_isDigits exponent)
  · cases exponent

theorem plain_of_isFraction {chars : List Char} (fraction : isFraction chars = true) :
    Plain chars := by
  unfold isFraction at fraction
  split at fraction
  · rw [Bool.and_eq_true] at fraction
    exact plain_cons rfl (plain_cons (isAtomChar_of_isDigit fraction.1)
      (plain_of_dropWhile (plain_of_isExponent fraction.2)))
  · exact plain_of_isExponent fraction

private theorem plain_of_isLiteral {literal : List Char} (written : isLiteral literal = true) :
    literal ≠ [] ∧ Plain literal := by
  have unsigned : unsigned literal ≠ [] ∧ Plain (unsigned literal) := by
    unfold isLiteral at written
    split at written
    · rename_i rest same
      rw [same]
      exact ⟨List.cons_ne_nil _ _, plain_cons rfl (plain_of_isFraction written)⟩
    · rename_i c rest _ same
      rw [Bool.and_eq_true] at written
      rw [same]
      exact ⟨List.cons_ne_nil _ _, plain_cons (isAtomChar_of_isDigit written.1)
        (plain_of_dropWhile (plain_of_isFraction written.2))⟩
    · cases written
  unfold Number.unsigned at unsigned
  split at unsigned
  · exact ⟨List.cons_ne_nil _ _, plain_cons rfl unsigned.2⟩
  · exact unsigned

end Number

/-! ### Atoms -/

private theorem Token.atom_of_ofAtom? {atom : List Char} {token : Token}
    (found : Token.ofAtom? atom = some token) :
    token.chars = atom ∧ token.isAtom = true ∧ token.Sound := by
  unfold ofAtom? at found
  split at found
  · rename_i same
    cases found
    exact ⟨same.symm, rfl, trivial⟩
  split at found
  · rename_i same
    cases found
    exact ⟨same.symm, rfl, trivial⟩
  split at found
  · rename_i same
    cases found
    exact ⟨same.symm, rfl, trivial⟩
  split at found
  · rename_i written
    cases found
    exact ⟨rfl, rfl, written⟩
  · cases found

private theorem Token.ofAtom?_chars {token : Token} (atom : token.isAtom = true)
    (sound : token.Sound) :
    Token.ofAtom? token.chars = some token := by
  cases token with
  | null => rfl
  | boolean value => cases value <;> rfl
  | number literal =>
      have written : Number.isLiteral literal = true := sound
      have word (letters : List Char) (refused : Number.isLiteral letters = false) :
          literal ≠ letters := by
        rintro rfl
        rw [written] at refused
        cases refused
      rw [chars, ofAtom?, if_neg (word _ rfl), if_neg (word _ rfl), if_neg (word _ rfl),
        if_pos written]
  | _ => cases atom

private theorem Token.plain_chars {token : Token} (atom : token.isAtom = true)
    (sound : token.Sound) :
    token.chars ≠ [] ∧ Number.Plain token.chars := by
  cases token with
  | null => exact ⟨List.cons_ne_nil _ _, List.all_eq_true.mp rfl⟩
  | boolean value =>
      cases value
      · exact ⟨List.cons_ne_nil _ _, List.all_eq_true.mp rfl⟩
      · exact ⟨List.cons_ne_nil _ _, List.all_eq_true.mp rfl⟩
  | number literal => exact Number.plain_of_isLiteral sound
  | _ => cases atom

/-! ### What the scanner does next -/

namespace Reading

theorem scan_cons (reading : Reading) (c : Char) (rest : List Char) :
    reading.scan (c :: rest) =
      (reading.step c).bind fun found =>
        (found.2.scan rest).map fun after => found.1 ++ after := by
  simp only [scan, Option.map_eq_bind]
  rfl

theorem scan_atom (taken text : List Char) :
    (atom taken).scan text =
      (Token.ofAtom? (taken.reverse ++ text.takeWhile isAtomChar)).bind fun token =>
        (between.scan (text.dropWhile isAtomChar)).map fun after => token :: after := by
  induction text generalizing taken with
  | nil =>
      rw [List.takeWhile_nil, List.dropWhile_nil, List.append_nil]
      cases found : Token.ofAtom? taken.reverse <;> simp [scan, finish, found]
  | cons c rest ih =>
      by_cases goesOn : isAtomChar c = true
      · have stepped : (atom taken).step c = some ([], atom (c :: taken)) := if_pos goesOn
        rw [scan_cons, stepped, Option.bind_some, ih, List.takeWhile_cons_of_pos goesOn,
          List.dropWhile_cons_of_pos goesOn, List.reverse_cons, List.append_assoc]
        exact Option.map_id'
      · have stepped : (atom taken).step c =
            (Token.ofAtom? taken.reverse).bind fun token =>
              (first c).bind fun found => some (token :: found.1, found.2) :=
          if_neg goesOn
        have begins : between.step c = first c := rfl
        rw [List.takeWhile_cons_of_neg goesOn, List.dropWhile_cons_of_neg goesOn, List.append_nil,
          scan_cons, scan_cons, stepped, begins]
        cases Token.ofAtom? taken.reverse with
        | none => rfl
        | some token =>
            cases first c with
            | none => rfl
            | some found =>
                simp only [Option.bind_some, Option.map_map]
                rfl

theorem scan_string_end (taken rest : List Char) :
    (string taken).scan ('"' :: rest) =
      if (Escape.pieces taken.reverse).isSome = true then
        (between.scan rest).map fun after => .string taken.reverse :: after
      else none := by
  have stepped : (string taken).step '"' =
      if (Escape.pieces taken.reverse).isSome = true then
        some ([.string taken.reverse], between)
      else none := rfl
  rw [scan_cons, stepped]
  split <;> rfl

theorem scan_string_escape (taken rest : List Char) (c : Char) :
    (string taken).scan ('\\' :: c :: rest) = (string (c :: '\\' :: taken)).scan rest := by
  have first : (string taken).step '\\' = some ([], escape taken) := rfl
  have second : (escape taken).step c = some ([], string (c :: '\\' :: taken)) := rfl
  rw [scan_cons, first, Option.bind_some, scan_cons, second, Option.bind_some]
  simp

theorem scan_string_char {c : Char} (plain : c ≠ '"') (single : c ≠ '\\')
    (taken rest : List Char) :
    (string taken).scan (c :: rest) = (string (c :: taken)).scan rest := by
  have stepped : (string taken).step c = some ([], string (c :: taken)) := by
    unfold step
    split <;> simp_all
  rw [scan_cons, stepped, Option.bind_some]
  simp

theorem scan_string {raw : List Char} (closed : Escape.isClosed raw = true)
    (taken rest : List Char) :
    (string taken).scan (raw ++ '"' :: rest) =
      if (Escape.pieces (taken.reverse ++ raw)).isSome = true then
        (between.scan rest).map fun after => .string (taken.reverse ++ raw) :: after
      else none := by
  induction raw using Escape.isClosed.induct generalizing taken with
  | case1 =>
      rw [List.append_nil]
      exact scan_string_end taken rest
  | case2 => cases closed
  | case3 c raw ih =>
      have whole : (c :: '\\' :: taken).reverse ++ raw = taken.reverse ++ '\\' :: c :: raw := by
        simp
      rw [List.cons_append, List.cons_append, scan_string_escape, ih closed, whole]
  | case4 c raw single ih =>
      rw [Escape.isClosed_cons single, Bool.and_eq_true, bne_iff_ne] at closed
      have whole : (c :: taken).reverse ++ raw = taken.reverse ++ c :: raw := by
        simp
      rw [List.cons_append, scan_string_char closed.1 single, ih closed.2, whole]

theorem exists_of_scan_string {taken text : List Char} {tokens : List Token}
    (scanned : (string taken).scan text = some tokens) :
    ∃ raw rest after, text = raw ++ '"' :: rest ∧ Escape.isClosed raw = true ∧
      (Escape.pieces (taken.reverse ++ raw)).isSome = true ∧
      between.scan rest = some after ∧ tokens = .string (taken.reverse ++ raw) :: after := by
  induction text using Escape.isClosed.induct generalizing taken with
  | case1 => cases scanned
  | case2 =>
      rw [scan_cons] at scanned
      cases scanned
  | case3 c text ih =>
      rw [scan_string_escape] at scanned
      obtain ⟨raw, rest, after, rfl, closed, pieces, later, rfl⟩ := ih scanned
      have whole : (c :: '\\' :: taken).reverse ++ raw = taken.reverse ++ '\\' :: c :: raw := by
        simp
      rw [whole] at pieces ⊢
      exact ⟨'\\' :: c :: raw, rest, after, rfl, closed, pieces, later, rfl⟩
  | case4 c text single ih =>
      by_cases ends : c = '"'
      · subst ends
        rw [scan_string_end] at scanned
        split at scanned
        · rename_i pieces
          obtain ⟨after, later, rfl⟩ := Option.map_eq_some_iff.mp scanned
          refine ⟨[], text, after, rfl, rfl, ?_, later, ?_⟩
          · rwa [List.append_nil]
          · rw [List.append_nil]
        · cases scanned
      · rw [scan_string_char ends single] at scanned
        obtain ⟨raw, rest, after, rfl, closed, pieces, later, rfl⟩ := ih scanned
        have whole : (c :: taken).reverse ++ raw = taken.reverse ++ c :: raw := by
          simp
        rw [whole] at pieces ⊢
        refine ⟨c :: raw, rest, after, rfl, ?_, pieces, later, rfl⟩
        rw [Escape.isClosed_cons single, closed, Bool.and_true]
        exact bne_iff_ne.mpr ends

/-! ### Between tokens -/

inductive Begins (c : Char) : List Token → Reading → Prop
  | blank (isBlank : isBlank c = true) : Begins c [] between
  | atom (isAtomChar : isAtomChar c = true) : Begins c [] (atom [c])
  | sign (token : Token) (chars : token.chars = [c]) (single : token.isAtom = false)
      (sound : token.Sound) : Begins c [token] between
  | quote (isQuote : c = '"') : Begins c [] (string [])

private theorem begins_of_first {c : Char} {tokens : List Token} {next : Reading}
    (found : first c = some (tokens, next)) : Begins c tokens next := by
  unfold first at found
  split at found
  · rename_i blank
    cases found
    exact .blank blank
  split at found
  · rename_i plain
    cases found
    exact .atom plain
  split at found
  · cases found
    exact .sign .openObject rfl rfl trivial
  · cases found
    exact .sign .closeObject rfl rfl trivial
  · cases found
    exact .sign .openArray rfl rfl trivial
  · cases found
    exact .sign .closeArray rfl rfl trivial
  · cases found
    exact .sign .colon rfl rfl trivial
  · cases found
    exact .sign .comma rfl rfl trivial
  · cases found
    exact .quote rfl
  · cases found

private theorem isBlank_eq_false {c : Char} (plain : isAtomChar c = true) : isBlank c = false := by
  rw [Bool.eq_false_iff]
  intro blank
  simp only [isBlank, Bool.or_eq_true, beq_iff_eq] at blank
  rcases blank with ((rfl | rfl) | rfl) | rfl
  · cases plain
  · cases plain
  · cases plain
  · cases plain

theorem scan_blank {c : Char} (blank : isBlank c = true) (rest : List Char) :
    between.scan (c :: rest) = between.scan rest := by
  have stepped : between.step c = some ([], between) := if_pos blank
  rw [scan_cons, stepped, Option.bind_some]
  exact Option.map_id'

theorem scan_atom_start {c : Char} (plain : isAtomChar c = true) (rest : List Char) :
    between.scan (c :: rest) =
      (Token.ofAtom? (c :: rest.takeWhile isAtomChar)).bind fun token =>
        (between.scan (rest.dropWhile isAtomChar)).map fun after => token :: after := by
  have apart : ¬ isBlank c = true := Bool.eq_false_iff.mp (isBlank_eq_false plain)
  have stepped : between.step c = some ([], atom [c]) := (if_neg apart).trans (if_pos plain)
  rw [scan_cons, stepped, Option.bind_some, scan_atom]
  exact Option.map_id'

theorem scan_sign {c : Char} {token : Token} (found : first c = some ([token], between))
    (rest : List Char) :
    between.scan (c :: rest) = (between.scan rest).map fun after => token :: after := by
  have stepped : between.step c = some ([token], between) := found
  rw [scan_cons, stepped]
  rfl

theorem scan_quote (rest : List Char) :
    between.scan ('"' :: rest) = (string []).scan rest := by
  have stepped : between.step '"' = some ([], string []) := rfl
  rw [scan_cons, stepped, Option.bind_some]
  exact Option.map_id'

theorem scan_token {token : Token} (sound : token.Sound) {text : List Char}
    (ends : token.EndsAt text) :
    between.scan (token.chars ++ text) =
      (between.scan text).map fun after => token :: after := by
  by_cases isAtom : token.isAtom = true
  · obtain ⟨filled, plain⟩ := Token.plain_chars isAtom sound
    obtain ⟨c, rest, chars⟩ := List.exists_cons_of_ne_nil filled
    rw [chars] at plain
    obtain ⟨first, later⟩ := List.forall_mem_cons.mp plain
    have stops : text.takeWhile isAtomChar = [] ∧ text.dropWhile isAtomChar = text := by
      cases text with
      | nil => exact ⟨rfl, rfl⟩
      | cons next others =>
          have apart : ¬ isAtomChar next = true :=
            Bool.eq_false_iff.mp (ends isAtom next (Option.mem_some_self next))
          exact ⟨List.takeWhile_cons_of_neg apart, List.dropWhile_cons_of_neg apart⟩
    rw [chars, List.cons_append, scan_atom_start first, List.takeWhile_append_of_pos later,
      List.dropWhile_append_of_pos later, stops.1, stops.2, List.append_nil, ← chars,
      Token.ofAtom?_chars isAtom sound, Option.bind_some]
  · cases token with
    | openObject => exact scan_sign rfl text
    | closeObject => exact scan_sign rfl text
    | openArray => exact scan_sign rfl text
    | closeArray => exact scan_sign rfl text
    | colon => exact scan_sign rfl text
    | comma => exact scan_sign rfl text
    | string raw =>
        have quoted : Token.chars (.string raw) ++ text = '"' :: (raw ++ '"' :: text) := by
          simp [Token.chars]
        rw [quoted, scan_quote, scan_string sound.1, List.reverse_nil, List.nil_append,
          if_pos sound.2]
    | _ => exact absurd rfl isAtom

end Reading

/-! ### Texts and their tokens -/

private theorem Spaced.scan_eq {tokens : List Token} {text : List Char}
    (spaced : Spaced tokens text) :
    Token.scan text = some tokens := by
  rw [Token.scan]
  induction spaced with
  | empty => rfl
  | blank c isBlank rest ih => rw [Reading.scan_blank isBlank, ih]
  | token token sound ends rest ih => rw [Reading.scan_token sound ends, ih, Option.map_some]

theorem endsAt_of_single {token : Token} (single : token.isAtom = false) (text : List Char) :
    token.EndsAt text := by
  intro isAtom
  rw [single] at isAtom
  cases isAtom

private theorem endsAt_dropWhile (token : Token) (text : List Char) :
    token.EndsAt (text.dropWhile Reading.isAtomChar) := by
  intro _ c member
  have stops := List.head?_dropWhile_not Reading.isAtomChar text
  rw [Option.mem_def.mp member] at stops
  exact stops

theorem scan_cons_cases {c : Char} {rest : List Char} {tokens : List Token}
    (scanned : Reading.between.scan (c :: rest) = some tokens) :
    (Reading.isBlank c = true ∧ Reading.between.scan rest = some tokens) ∨
      ∃ token text others, c :: rest = token.chars ++ text ∧ token.Sound ∧ token.EndsAt text ∧
        text.length ≤ rest.length ∧ Reading.between.scan text = some others ∧
          tokens = token :: others := by
  have scannedAll := scanned
  rw [Reading.scan_cons] at scanned
  obtain ⟨⟨found, next⟩, stepped, after⟩ := Option.bind_eq_some_iff.mp scanned
  cases Reading.begins_of_first stepped with
  | blank isBlank =>
      rw [Reading.scan_blank isBlank] at scannedAll
      exact .inl ⟨isBlank, scannedAll⟩
  | atom plain =>
      rw [Reading.scan_atom_start plain] at scannedAll
      obtain ⟨token, isToken, later⟩ := Option.bind_eq_some_iff.mp scannedAll
      obtain ⟨others, scannedRest, rfl⟩ := Option.map_eq_some_iff.mp later
      obtain ⟨chars, -, sound⟩ := Token.atom_of_ofAtom? isToken
      have whole : c :: rest = token.chars ++ rest.dropWhile Reading.isAtomChar := by
        rw [chars, List.cons_append, List.takeWhile_append_dropWhile]
      have shrunk := (List.dropWhile_sublist (l := rest) Reading.isAtomChar).length_le
      exact .inr ⟨token, _, others, whole, sound, endsAt_dropWhile token rest, shrunk,
        scannedRest, rfl⟩
  | sign token chars single sound =>
      rw [Reading.scan_sign stepped] at scannedAll
      obtain ⟨others, scannedRest, rfl⟩ := Option.map_eq_some_iff.mp scannedAll
      have whole : c :: rest = token.chars ++ rest := by
        rw [chars]
        rfl
      exact .inr ⟨token, rest, others, whole, sound, endsAt_of_single single rest, Nat.le_refl _,
        scannedRest, rfl⟩
  | quote isQuote =>
      subst isQuote
      rw [Reading.scan_quote] at scannedAll
      obtain ⟨raw, behind, others, rfl, closed, pieces, scannedRest, rfl⟩ :=
        Reading.exists_of_scan_string scannedAll
      have whole : '"' :: (raw ++ '"' :: behind) = Token.chars (.string raw) ++ behind := by
        simp [Token.chars]
      have shrunk : behind.length ≤ (raw ++ '"' :: behind).length := by
        rw [List.length_append, List.length_cons]
        omega
      exact .inr ⟨.string raw, behind, others, whole, ⟨closed, pieces⟩,
        endsAt_of_single rfl behind, shrunk, scannedRest, rfl⟩

private theorem spaced_of_scan {text : List Char} {tokens : List Token}
    (scanned : Token.scan text = some tokens) : Spaced tokens text := by
  rw [Token.scan] at scanned
  -- what follows a token is shorter than the text, but is not its tail
  induction shorter : text.length using Nat.strongRecOn generalizing text tokens with
  | ind size ih =>
      cases text with
      | nil =>
          cases scanned
          exact .empty
      | cons c rest =>
          rw [List.length_cons] at shorter
          rcases scan_cons_cases scanned with
            ⟨isBlank, later⟩ | ⟨token, behind, others, whole, sound, ends, shrunk, later, rfl⟩
          · exact .blank c isBlank (ih rest.length (by omega) later rfl)
          · rw [whole]
            exact .token token sound ends (ih behind.length (by omega) later rfl)

/-- The scanner finds some tokens in the texts that hold them, and in no others. -/
theorem scan_eq_some_iff {text : List Char} {tokens : List Token} :
    Token.scan text = some tokens ↔ Spaced tokens text :=
  ⟨spaced_of_scan, Spaced.scan_eq⟩

end Chip8.Json
