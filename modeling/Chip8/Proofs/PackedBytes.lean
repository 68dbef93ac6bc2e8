import Mathlib.Data.List.Basic
import Mathlib.Data.List.GetD
import Chip8.Screen.Bytes

/-!
The byte form of a screen. Packing and unpacking are inverse to each other on screens, and on
byte lists up to the length of a screen: short lists are padded at the end and long ones cut.
A byte is known by its eight bits, and a row by the number that its eight bytes write.
-/

namespace Chip8

namespace Bits

/-! ### Bytes and their bits -/

private theorem eq_of_ofByte {left right : UInt8}
    (same : ∀ position, position < 8 → ofByte left position = ofByte right position) :
    left = right := by
  apply UInt8.toNat.inj
  apply Nat.eq_of_testBit_eq
  intro place
  by_cases inside : place < 8
  · have position : 7 - (7 - place) = place := by omega
    have bit := same (7 - place) (by omega)
    rw [ofByte, ofByte, position] at bit
    exact bit
  · have wide : 2 ^ 8 ≤ 2 ^ place := Nat.pow_le_pow_right (by decide) (by omega)
    rw [Nat.testBit_lt_two_pow (Nat.lt_of_lt_of_le left.toNat_lt wide),
      Nat.testBit_lt_two_pow (Nat.lt_of_lt_of_le right.toNat_lt wide)]

def expanded (byte : UInt8) : List Bool :=
  (List.range 8).map (ofByte byte)

/-- The number that a list of bytes writes, most significant first. -/
def bigEndian (bytes : List UInt8) : Nat :=
  bytes.foldl (fun total byte => 256 * total + byte.toNat) 0

private theorem valueFrom_append (start : Nat) (first second : List Bool) :
    valueFrom start (first ++ second) = valueFrom (valueFrom start first) second :=
  List.foldl_append

theorem length_expanded (byte : UInt8) : (expanded byte).length = 8 := by
  rw [expanded, List.length_map, List.length_range]

private theorem getD_expanded (byte : UInt8) {position : Nat} (inByte : position < 8) :
    (expanded byte).getD position false = ofByte byte position := by
  rw [List.getD_eq_getElem _ _ (by rwa [length_expanded])]
  simp [expanded]

private theorem valueFrom_expanded (start : Nat) (byte : UInt8) :
    valueFrom start (expanded byte) = 256 * start + byte.toNat := by
  apply Nat.eq_of_testBit_eq
  intro place
  rw [testBit_valueFrom, length_expanded,
    show 256 * start + byte.toNat = 2 ^ 8 * start + byte.toNat from rfl,
    Nat.testBit_two_pow_mul_add start byte.toNat_lt]
  by_cases inside : place < 8
  · have mirrored : 7 - (8 - 1 - place) = place := by omega
    rw [if_pos inside, if_pos inside, getD_expanded byte (by omega), ofByte, mirrored]
  · rw [if_neg inside, if_neg inside]

/-- Bytes written one after the other are their bits written one after the other. -/
theorem value_flatMap_expanded (bytes : List UInt8) :
    value (bytes.flatMap expanded) = bigEndian bytes := by
  -- the induction is over the bytes still to be read, after any that have been
  suffices from_start : ∀ start, valueFrom start (bytes.flatMap expanded) =
      bytes.foldl (fun total byte => 256 * total + byte.toNat) start from from_start 0
  induction bytes with
  | nil => intro start; rfl
  | cons byte rest ih =>
      intro start
      rw [List.flatMap_cons, valueFrom_append, valueFrom_expanded, ih, List.foldl_cons]

end Bits

namespace Screen

/-! ### The packed bytes -/

theorem ofByte_packed (screen : Screen) (index : Nat) {position : Nat} (inByte : position < 8) :
    Bits.ofByte (screen.packed index) position =
      screen.get (8 * (index % 8) + position) (index / 8) := by
  have place : 7 - position < 8 := by omega
  have mirrored : 8 - 1 - (7 - position) = position := by omega
  rw [Bits.ofByte, packed, UInt8.toNat_ofNat', Nat.testBit_mod_two_pow,
    Bits.testBit_value_map_range, mirrored, decide_eq_true place, Bool.true_and, Bool.true_and]

theorem length_toBytes (screen : Screen) : screen.toBytes.length = 256 := by
  rw [toBytes, List.length_map, List.length_range]

private theorem getD_toBytes (screen : Screen) {index : Nat} (inside : index < 256) :
    screen.toBytes.getD index 0 = screen.packed index := by
  simp [toBytes, inside]

theorem ofByte_toBytes (screen : Screen) {x y : Nat} (inColumn : x < width)
    (inRow : y < height) :
    Bits.ofByte (screen.toBytes.getD (8 * y + x / 8) 0) (x % 8) = screen.get x y := by
  simp only [width, height] at inColumn inRow
  have column : 8 * ((8 * y + x / 8) % 8) + x % 8 = x := by omega
  have row : (8 * y + x / 8) / 8 = y := by omega
  rw [getD_toBytes screen (by omega), ofByte_packed screen _ (Nat.mod_lt _ (by decide)),
    column, row]

theorem ofBytes_toBytes (screen : Screen) : ofBytes screen.toBytes = screen := by
  apply ext_get
  intro x y inColumn inRow
  rw [ofBytes, get_ofPixels _ inColumn inRow, ofByte_toBytes screen inColumn inRow]

theorem packed_ofBytes (bytes : List UInt8) {index : Nat} (inside : index < 256) :
    (ofBytes bytes).packed index = bytes.getD index 0 := by
  apply Bits.eq_of_ofByte
  intro position inByte
  have inColumn : 8 * (index % 8) + position < width := by
    simp only [width]
    omega
  have inRow : index / 8 < height := by
    simp only [height]
    omega
  have place : 8 * (index / 8) + (8 * (index % 8) + position) / 8 = index := by omega
  have bit : (8 * (index % 8) + position) % 8 = position := by omega
  rw [ofByte_packed _ _ inByte, ofBytes, get_ofPixels _ inColumn inRow, place, bit]

theorem toBytes_ofBytes (bytes : List UInt8) :
    (ofBytes bytes).toBytes =
      bytes.take 256 ++ List.replicate (256 - bytes.length) 0 := by
  apply List.ext_getElem
  · rw [length_toBytes, List.length_append, List.length_take, List.length_replicate]
    omega
  · intro index packedBound paddedBound
    have inside : index < 256 := by simpa only [length_toBytes] using packedBound
    simp only [toBytes, List.getElem_map, List.getElem_range, packed_ofBytes bytes inside]
    by_cases given : index < bytes.length
    · have kept : index < (bytes.take 256).length := by
        rw [List.length_take]
        omega
      rw [List.getElem_append_left kept, List.getElem_take,
        List.getD_eq_getElem _ _ given]
    · have beyond : (bytes.take 256).length ≤ index := by
        rw [List.length_take]
        omega
      rw [List.getElem_append_right beyond, List.getElem_replicate,
        List.getD_eq_default _ _ (Nat.le_of_not_lt given)]

/-! ### Rows as numbers -/

private theorem toNat_row (screen : Screen) (y : Nat) :
    (screen.row y).toNat =
      Bits.value ((List.range width).map fun x => screen.get x y) := by
  apply Nat.eq_of_testBit_eq
  intro place
  rw [Bits.testBit_value_map_range]
  by_cases inside : place < width
  · have mirrored : width - 1 - place < 64 := by
      simp only [width] at inside ⊢
      omega
    have same : 64 - 1 - (width - 1 - place) = place := by
      simp only [width] at inside ⊢
      omega
    rw [get, BitVec.getMsbD_eq_getLsbD, same, decide_eq_true inside, decide_eq_true mirrored]
    rfl
  · rw [decide_eq_false inside, Bool.false_and]
    exact BitVec.getLsbD_of_ge _ _ (Nat.le_of_not_lt inside)

theorem take_drop_toBytes (screen : Screen) {y : Nat} (inRow : y < height) :
    (screen.toBytes.drop (8 * y)).take 8 =
      (List.range 8).map fun byte => screen.packed (8 * y + byte) := by
  simp only [height] at inRow
  apply List.ext_getElem
  · rw [List.length_take, List.length_drop, length_toBytes, List.length_map, List.length_range]
    omega
  · intro byte _ _
    simp [toBytes]

theorem flatMap_expanded_toBytes (screen : Screen) {y : Nat} (inRow : y < height) :
    ((screen.toBytes.drop (8 * y)).take 8).flatMap Bits.expanded =
      (List.range width).map fun x => screen.get x y := by
  have spread (byte : Nat) (inChunk : byte ∈ List.range 8) :
      Bits.expanded (screen.packed (8 * y + byte)) =
        (List.range 8).map fun position => screen.get (8 * byte + position) y := by
    have small : byte < 8 := List.mem_range.mp inChunk
    apply List.map_congr_left
    intro position inByte
    rw [ofByte_packed screen _ (List.mem_range.mp inByte)]
    congr 1 <;> omega
  rw [take_drop_toBytes screen inRow, List.flatMap_map, List.flatMap_congr spread]
  rfl

theorem bigEndian_toBytes (screen : Screen) {y : Nat} (inRow : y < height) :
    Bits.bigEndian ((screen.toBytes.drop (8 * y)).take 8) = (screen.row y).toNat := by
  rw [← Bits.value_flatMap_expanded, flatMap_expanded_toBytes screen inRow, toNat_row]

/-! ### Rows from chunks -/

/-- Bytes eight by eight; the last chunk may be shorter. -/
def chunks : List UInt8 → List (List UInt8)
  | [] => []
  | byte :: rest => (byte :: rest.take 7) :: chunks (rest.drop 7)
  termination_by bytes => bytes.length

def filled (chunk : List UInt8) : List UInt8 :=
  chunk ++ List.replicate (8 - chunk.length) 0

private theorem getElem?_chunks (bytes : List UInt8) (y : Nat) :
    (chunks bytes)[y]? =
      if 8 * y < bytes.length then some ((bytes.drop (8 * y)).take 8) else none := by
  fun_induction chunks bytes generalizing y with
  | case1 => rfl
  | case2 byte rest ih =>
      cases y with
      | zero => rfl
      | succ y =>
          have place : 8 * (y + 1) = (7 + 8 * y) + 1 := by omega
          have later : (byte :: rest).drop (8 * (y + 1)) = (rest.drop 7).drop (8 * y) := by
            rw [place, List.drop_succ_cons, List.drop_drop]
          have inside : 8 * (y + 1) < (byte :: rest).length ↔ 8 * y < (rest.drop 7).length := by
            rw [List.length_cons, List.length_drop]
            omega
          simp only [List.getElem?_cons_succ, ih, later, inside]

private theorem filled_take_drop {bytes : List UInt8} {start : Nat}
    (inside : start < bytes.length) :
    filled ((bytes.drop start).take 8) =
      (List.range 8).map fun offset => bytes.getD (start + offset) 0 := by
  have held : ((bytes.drop start).take 8).length = min 8 (bytes.length - start) := by
    rw [List.length_take, List.length_drop]
  apply List.ext_getElem
  · rw [filled, List.length_append, List.length_replicate, List.length_map, List.length_range]
    omega
  · intro offset inChunk inRange
    rw [List.getElem_map, List.getElem_range]
    simp only [filled]
    by_cases given : offset < ((bytes.drop start).take 8).length
    · rw [List.getElem_append_left given, List.getElem_take, List.getElem_drop,
        List.getD_eq_getElem _ _ (by omega)]
    · rw [List.getElem_append_right (Nat.le_of_not_lt given), List.getElem_replicate]
      rw [List.length_map, List.length_range] at inRange
      rw [List.getD_eq_default _ _ (by omega)]

/-- Each chunk of the bytes is the number of one row, and a row without a chunk is dark. -/
theorem toNat_row_ofBytes (bytes : List UInt8) {y : Nat} (inRow : y < height) :
    ((ofBytes bytes).row y).toNat =
      ((chunks bytes)[y]?.map fun chunk => Bits.bigEndian (filled chunk)).getD 0 := by
  have packs : ∀ offset ∈ List.range 8,
      (ofBytes bytes).packed (8 * y + offset) = bytes.getD (8 * y + offset) 0 := by
    intro offset member
    have small : offset < 8 := List.mem_range.mp member
    simp only [height] at inRow
    exact packed_ofBytes bytes (by omega)
  rw [← bigEndian_toBytes _ inRow, take_drop_toBytes _ inRow, List.map_congr_left packs,
    getElem?_chunks]
  by_cases inside : 8 * y < bytes.length
  · rw [if_pos inside, Option.map_some, Option.getD_some, filled_take_drop inside]
  · have dark : ∀ offset ∈ List.range 8, bytes.getD (8 * y + offset) 0 = 0 :=
      fun offset _ => List.getD_eq_default _ _ (by omega)
    rw [if_neg inside, List.map_congr_left dark]
    rfl

/-! ### The byte form -/

/-- A screen is written in 256 bytes, eight to a row and the leftmost pixel of each byte in its
high bit, and is read back from them. Any bytes are read as a screen, a chunk of eight for each
row: what is missing counts as zero, and what lies beyond the last row is not seen. -/
theorem bytes_carry_screen :
    (∀ screen : Screen,
      screen.toBytes.length = 256 ∧
      ofBytes screen.toBytes = screen ∧
      (∀ y, y < height →
        Bits.bigEndian ((screen.toBytes.drop (8 * y)).take 8) = (screen.row y).toNat) ∧
      ∀ x y, x < width → y < height →
        ∃ byte, screen.toBytes[8 * y + x / 8]? = some byte ∧
          (screen.get x y = true ↔ byte.toNat.testBit (7 - x % 8) = true)) ∧
    ∀ bytes : List UInt8,
      (ofBytes bytes).toBytes =
          bytes.take 256 ++ List.replicate (256 - bytes.length) 0 ∧
        ∀ y, y < height →
          ((ofBytes bytes).row y).toNat =
            ((chunks bytes)[y]?.map fun chunk => Bits.bigEndian (filled chunk)).getD 0 := by
  refine ⟨fun screen => ⟨length_toBytes screen, ofBytes_toBytes screen,
    fun y inRow => bigEndian_toBytes screen inRow, ?_⟩,
    fun bytes => ⟨toBytes_ofBytes bytes, fun y => toNat_row_ofBytes bytes⟩⟩
  intro x y inColumn inRow
  have inside : 8 * y + x / 8 < screen.toBytes.length := by
    rw [length_toBytes]
    simp only [width, height] at inColumn inRow
    omega
  refine ⟨screen.toBytes[8 * y + x / 8], List.getElem?_eq_getElem inside, ?_⟩
  have bit := ofByte_toBytes screen inColumn inRow
  rw [List.getD_eq_getElem _ _ inside] at bit
  rw [← bit, Bits.ofByte]

def ragged : List UInt8 := [0xf0, 0x90, 0x90, 0x90, 0xf0, 0, 0, 1, 0x20, 0x60]

theorem bytes_carry_ragged :
    (ofBytes ragged).toBytes = ragged ++ List.replicate 246 0 ∧
    (ofBytes ragged).row 0 = 0xf0909090f0000001#64 ∧
    (ofBytes ragged).get 63 0 = true ∧ (ofBytes ragged).get 2 1 = true ∧
    (ofBytes ragged).get 1 1 = false := by
  obtain ⟨screens, lists⟩ := bytes_carry_screen
  have padded : (ofBytes ragged).toBytes = ragged ++ List.replicate 246 0 := (lists ragged).1
  obtain ⟨-, -, rows, pixels⟩ := screens (ofBytes ragged)
  have pixel (x y : Nat) (inColumn : x < width) (inRow : y < height) (byte : UInt8)
      (stored : (ragged ++ List.replicate 246 0)[8 * y + x / 8]? = some byte) :
      (ofBytes ragged).get x y = byte.toNat.testBit (7 - x % 8) := by
    obtain ⟨found, place, bit⟩ := pixels x y inColumn inRow
    rw [padded, stored, Option.some.injEq] at place
    rw [place]
    exact Bool.eq_iff_iff.mpr bit
  refine ⟨padded, ?_, ?_, ?_, ?_⟩
  · apply BitVec.eq_of_toNat_eq
    rw [← rows 0 (by decide), padded]
    rfl
  · exact pixel 63 0 (by decide) (by decide) 1 rfl
  · exact pixel 2 1 (by decide) (by decide) 0x20 rfl
  · exact pixel 1 1 (by decide) (by decide) 0x20 rfl

end Screen

end Chip8
