import Mathlib.Algebra.Group.Nat.Defs
import Chip8.Text.Natural
import Chip8.Text.Numeral

/-!
Numerals read back. Whatever number a numeral shows, the reader of numbers finds the same number
in it; so two numerals that look alike show the same number, and bytes written as pairs of digits
are told by their text.
-/

namespace Chip8.Text

variable {radix bound value : Nat}

/-! ### Digits -/

theorem mem_toDigits (base : 1 < radix) {c : Char} (member : c ∈ Nat.toDigits radix value) :
    ∃ digit < radix, c = digit.digitChar := by
  induction value using Nat.strongRecOn with
  | ind value ih =>
      by_cases single : value < radix
      · rw [Nat.toDigits_of_lt_base single, List.mem_singleton] at member
        exact ⟨value, single, member⟩
      · have positive : 0 < value := by omega
        rw [Nat.toDigits_of_base_le base (Nat.le_of_not_lt single), List.mem_append,
          List.mem_singleton] at member
        rcases member with earlier | last
        · exact ih (value / radix) (Nat.div_lt_self positive base) earlier
        · exact ⟨value % radix, Nat.mod_lt _ (Nat.lt_of_succ_lt base), last⟩

theorem mem_filled (base : 1 < radix) {width : Nat} {c : Char}
    (member : c ∈ (Nat.toDigits radix value).leftpad width '0') :
    ∃ digit < radix, c = digit.digitChar := by
  rcases List.mem_append.mp member with zero | shown
  · exact ⟨0, Nat.lt_of_succ_lt base, List.eq_of_mem_replicate zero⟩
  · exact mem_toDigits base shown

theorem forall_mem_hex {holds : Char → Prop} (digits : ∀ digit < 16, holds digit.digitChar)
    (width value : Nat) : ∀ c ∈ (hex width value).toList, holds c := by
  intro c member
  rw [hex, String.toList_ofList] at member
  obtain ⟨digit, below, rfl⟩ := mem_filled (by decide) member
  exact digits digit below

theorem forall_mem_capitalHex {holds : Char → Prop}
    (digits : ∀ digit < 16, holds digit.digitChar.toUpper) (value : Nat) :
    ∀ c ∈ (capitalHex value).toList, holds c := by
  intro c member
  rw [capitalHex, String.toList_ofList] at member
  obtain ⟨shown, shownMember, rfl⟩ := List.mem_map.mp member
  obtain ⟨digit, below, rfl⟩ := mem_toDigits (by decide) shownMember
  exact digits digit below

theorem filled_ne_nil (radix width value : Nat) :
    (Nat.toDigits radix value).leftpad width '0' ≠ [] :=
  fun empty => Nat.toDigits_ne_nil (List.append_eq_nil_iff.mp empty).2

theorem toList_hex_ne_nil (width value : Nat) : (hex width value).toList ≠ [] := by
  rw [hex, String.toList_ofList]
  exact filled_ne_nil 16 width value

theorem length_hex (width value : Nat) :
    (hex width value).toList.length = max width (Nat.toDigits 16 value).length := by
  rw [hex, String.toList_ofList, List.length_leftpad]

/-! ### Reading a number -/

theorem naturalFrom_append {start middle : Nat} {first : List Char} (second : List Char)
    (read : naturalFrom radix bound start first = .ok middle) :
    naturalFrom radix bound start (first ++ second) = naturalFrom radix bound middle second := by
  induction first generalizing start with
  | nil =>
      cases read
      rfl
  | cons c rest ih =>
      rw [naturalFrom] at read
      rw [List.cons_append, naturalFrom]
      cases found : digit? radix c with
      | none => simp [found] at read
      | some digit =>
          simp only [found] at read ⊢
          by_cases small : radix * start + digit < bound
          · rw [if_pos small] at read ⊢
            exact ih read
          · simp [small] at read

theorem naturalFrom_lt {start : Nat} {chars : List Char} (room : start < bound)
    (read : naturalFrom radix bound start chars = .ok value) : value < bound := by
  induction chars generalizing start with
  | nil =>
      cases read
      exact room
  | cons c rest ih =>
      rw [naturalFrom] at read
      cases found : digit? radix c with
      | none => simp [found] at read
      | some digit =>
          simp only [found] at read
          by_cases small : radix * start + digit < bound
          · rw [if_pos small] at read
            exact ih small read
          · simp [small] at read

theorem natural_lt {text : String} (room : 0 < bound)
    (read : natural radix bound text = .ok value) : value < bound := by
  unfold natural at read
  split at read
  · cases read
  · cases read
  · exact naturalFrom_lt room read
  · exact naturalFrom_lt room read

theorem naturalFrom_toDigits (write : Char → Char) (base : 1 < radix)
    (known : ∀ digit < radix, digit? radix (write digit.digitChar) = some digit)
    (small : value < bound) :
    naturalFrom radix bound 0 ((Nat.toDigits radix value).map write) = .ok value := by
  induction value using Nat.strongRecOn with
  | ind value ih =>
      by_cases single : value < radix
      · simp only [Nat.toDigits_of_lt_base single, List.map_cons, List.map_nil, naturalFrom,
          known value single, Nat.mul_zero, Nat.zero_add, if_pos small]
      · have fewer : value / radix < value := Nat.div_lt_self (by omega) base
        have last : value % radix < radix := Nat.mod_lt _ (by omega)
        have whole : radix * (value / radix) + value % radix = value := Nat.div_add_mod value radix
        rw [Nat.toDigits_of_base_le base (Nat.le_of_not_lt single), List.map_append,
          naturalFrom_append _ (ih _ fewer (by omega))]
        simp only [List.map_cons, List.map_nil, naturalFrom, known _ last, whole, if_pos small]

private theorem naturalFrom_zeros (zero : digit? radix '0' = some 0) (room : 0 < bound)
    (count : Nat) : naturalFrom radix bound 0 (List.replicate count '0') = .ok 0 := by
  induction count with
  | zero => rfl
  | succ count ih =>
      simp only [List.replicate_succ, naturalFrom, zero, Nat.mul_zero, Nat.add_zero,
        if_pos room, ih]

theorem natural_ofList {chars : List Char} (filled : chars ≠ []) (unsigned : '+' ∉ chars) :
    natural radix bound (String.ofList chars) = naturalFrom radix bound 0 chars := by
  unfold natural
  rw [String.toList_ofList]
  split
  · exact absurd rfl filled
  · exact absurd List.mem_cons_self unsigned
  · exact absurd List.mem_cons_self unsigned
  · rfl

private theorem natural_filled (width : Nat) (base : 1 < radix)
    (known : ∀ digit < radix, digit? radix digit.digitChar = some digit)
    (unsigned : ∀ digit < radix, digit.digitChar ≠ '+') (small : value < bound) :
    natural radix bound (String.ofList ((Nat.toDigits radix value).leftpad width '0')) =
      .ok value := by
  have noSign : '+' ∉ (Nat.toDigits radix value).leftpad width '0' := by
    intro member
    obtain ⟨digit, below, sign⟩ := mem_filled base member
    exact unsigned digit below sign.symm
  have zero : digit? radix '0' = some 0 := known 0 (by omega)
  have digits := naturalFrom_toDigits id base known small
  rw [List.map_id] at digits
  rw [natural_ofList (filled_ne_nil radix width value) noSign, List.leftpad,
    naturalFrom_append _ (naturalFrom_zeros zero (by omega) _), digits]

theorem natural_hex (width : Nat) (small : value < bound) :
    natural 16 bound (hex width value) = .ok value :=
  natural_filled width (by decide) (by decide) (by decide) small

theorem natural_decimal (width : Nat) (small : value < bound) :
    natural 10 bound (decimal '0' width value) = .ok value :=
  natural_filled width (by decide) (by decide) (by decide) small

theorem natural_capitalHex (small : value < bound) :
    natural 16 bound (capitalHex value) = .ok value := by
  have filled : (Nat.toDigits 16 value).map Char.toUpper ≠ [] :=
    fun empty => Nat.toDigits_ne_nil (List.map_eq_nil_iff.mp empty)
  have unsigned : '+' ∉ (Nat.toDigits 16 value).map Char.toUpper := by
    intro member
    have every : ∀ c ∈ (capitalHex value).toList, c ≠ '+' :=
      forall_mem_capitalHex (by decide) value
    rw [capitalHex, String.toList_ofList] at every
    exact every '+' member rfl
  rw [capitalHex, natural_ofList filled unsigned]
  exact naturalFrom_toDigits Char.toUpper (by decide) (by decide) small

private theorem injective_of_natural {write : Nat → String}
    (read : ∀ {value bound : Nat}, value < bound → natural 16 bound (write value) = .ok value)
    {first second : Nat} (same : write first = write second) : first = second := by
  have firstRead : natural 16 (first + second + 1) (write first) = .ok first :=
    read (by omega)
  have secondRead : natural 16 (first + second + 1) (write second) = .ok second :=
    read (by omega)
  rw [same, secondRead] at firstRead
  exact (Except.ok.inj firstRead).symm

theorem hex_injective (width : Nat) {first second : Nat}
    (same : hex width first = hex width second) : first = second :=
  injective_of_natural (natural_hex width) same

theorem capitalHex_injective {first second : Nat}
    (same : capitalHex first = capitalHex second) : first = second :=
  injective_of_natural natural_capitalHex same

/-! ### Digit by digit -/

theorem leftpad_concat (width : Nat) (fill last : Char) (chars : List Char) :
    (chars ++ [last]).leftpad (width + 1) fill = chars.leftpad width fill ++ [last] := by
  have room : width + 1 - (chars.length + 1) = width - chars.length := by omega
  simp only [List.leftpad, List.length_append, List.length_singleton, room, List.append_assoc]

theorem filled_succ (base : 1 < radix) (width value : Nat) :
    (Nat.toDigits radix value).leftpad (width + 2) '0' =
      (Nat.toDigits radix (value / radix)).leftpad (width + 1) '0' ++
        [(value % radix).digitChar] := by
  by_cases single : value < radix
  · rw [Nat.div_eq_of_lt single, Nat.mod_eq_of_lt single, Nat.toDigits_of_lt_base single,
      Nat.toDigits_of_lt_base (Nat.lt_of_succ_lt base), ← List.nil_append [value.digitChar],
      leftpad_concat]
    simp only [List.leftpad, List.length_singleton, List.length_nil, Nat.sub_zero,
      Nat.add_sub_cancel, List.append_nil, List.nil_append]
    rw [List.replicate_succ']
    rfl
  · rw [Nat.toDigits_of_base_le base (Nat.le_of_not_lt single), leftpad_concat]

theorem toList_hex_succ (width value : Nat) :
    (hex (width + 2) value).toList =
      (hex (width + 1) (value / 16)).toList ++ [(value % 16).digitChar] := by
  simp only [hex, String.toList_ofList]
  exact filled_succ (by decide) width value

private theorem toList_hex_one (single : value < 16) :
    (hex 1 value).toList = [value.digitChar] := by
  rw [hex, String.toList_ofList, Nat.toDigits_of_lt_base single]
  rfl

theorem toList_hex_two (small : value < 256) :
    (hex 2 value).toList = [(value / 16).digitChar, (value % 16).digitChar] := by
  rw [toList_hex_succ 0, toList_hex_one (by omega)]
  rfl

theorem toList_hex_four (high low : UInt8) :
    (hex 4 (256 * high.toNat + low.toNat)).toList =
      (hex 2 high.toNat).toList ++ (hex 2 low.toNat).toList := by
  have highBound := high.toNat_lt
  have lowBound := low.toNat_lt
  have third : (256 * high.toNat + low.toNat) / 16 % 16 = low.toNat / 16 := by omega
  have second : (256 * high.toNat + low.toNat) / 16 / 16 = high.toNat := by omega
  have last : (256 * high.toNat + low.toNat) % 16 = low.toNat % 16 := by omega
  rw [toList_hex_succ 2, toList_hex_succ 1, third, second, last, toList_hex_two lowBound]
  simp only [List.append_assoc, List.cons_append, List.nil_append]

/-- A binary numeral shows the bits of its number, the highest of them first. -/
theorem toList_binary {width value : Nat} (small : value < 2 ^ (width + 1)) :
    (binary (width + 1) value).toList =
      (List.range (width + 1)).map fun place =>
        (value.testBit (width - place)).toNat.digitChar := by
  rw [binary, String.toList_ofList]
  induction width generalizing value with
  | zero =>
      have single : value < 2 := small
      have bit : value = 0 ∨ value = 1 := by omega
      rw [Nat.toDigits_of_lt_base single]
      rcases bit with rfl | rfl <;> rfl
  | succ width ih =>
      have half : value / 2 < 2 ^ (width + 1) := Nat.div_lt_of_lt_mul (Nat.pow_succ' ▸ small)
      rw [filled_succ (by decide), ih half, List.range_succ (n := width + 1), List.map_append]
      congr 1
      · apply List.map_congr_left
        intro place member
        have inside : place < width + 1 := List.mem_range.mp member
        have next : width + 1 - place = width - place + 1 := by omega
        rw [next, Nat.testBit_succ]
      · have last : (value.testBit 0).toNat = value % 2 := by
          rw [Nat.testBit_zero]
          rcases Nat.mod_two_eq_zero_or_one value with even | odd
          · simp [even]
          · simp [odd]
        rw [List.map_singleton, Nat.sub_self, last]

/-! ### Reading bytes -/

/-- The bytes that pairs of hexadecimal digits write. -/
def bytesOf? : List Char → Option (List UInt8)
  | [] => some []
  | [_] => none
  | high :: low :: rest =>
      match digit? 16 high, digit? 16 low, bytesOf? rest with
      | some first, some second, some bytes => some (UInt8.ofNat (16 * first + second) :: bytes)
      | _, _, _ => none

theorem bytesOf?_hexBytes (bytes : List UInt8) :
    bytesOf? (hexBytes bytes).toList = some bytes := by
  have known : ∀ digit < 16, digit? 16 digit.digitChar = some digit := by decide
  induction bytes with
  | nil => rfl
  | cons byte rest ih =>
      have bound := byte.toNat_lt
      have whole : 16 * (byte.toNat / 16) + byte.toNat % 16 = byte.toNat := by omega
      rw [hexBytes, List.map_cons, String.join_cons, String.toList_append,
        toList_hex_two bound, List.cons_append, List.cons_append, List.nil_append, bytesOf?,
        known _ (by omega), known _ (by omega)]
      rw [hexBytes] at ih
      rw [ih]
      simp only [whole, UInt8.ofNat_toNat]

end Chip8.Text
