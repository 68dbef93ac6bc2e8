import Mathlib.Algebra.BigOperators.Group.Finset.Piecewise
import Mathlib.Algebra.BigOperators.Group.Finset.Sigma
import Mathlib.Data.Finset.Prod
import Mathlib.Data.Finset.SymmDiff
import Chip8.Proofs.Drawing

/-!
A screen as the set of its lit points. Drawing replaces that set by its symmetric difference with
the set of points on which a lit bit of the sprite lands, so the lit points are accounted for:
each bit that lands lights a point or puts one out, and the flag tells whether it put one out.
-/

namespace Chip8

/-! ### Points in columns and rows -/

@[irreducible]
def grid (columns rows : Nat) : Finset Point :=
  (Finset.range columns ×ˢ Finset.range rows).image fun place => ⟨place.1, place.2⟩

theorem mem_grid_iff {columns rows : Nat} {point : Point} :
    point ∈ grid columns rows ↔ point.x < columns ∧ point.y < rows := by
  simp only [grid, Finset.mem_image, Finset.mem_product, Finset.mem_range]
  constructor
  · rintro ⟨place, inside, rfl⟩
    exact inside
  · intro inside
    exact ⟨(point.x, point.y), inside, rfl⟩

private theorem countP_range (bound : Nat) (holds : Nat → Bool) :
    (List.range bound).countP holds =
      ∑ x ∈ Finset.range bound, if holds x = true then 1 else 0 := by
  induction bound with
  | zero => rfl
  | succ bound ih =>
      rw [List.range_succ, List.countP_append, ih, Finset.sum_range_succ, List.countP_singleton]

theorem card_filter_grid (columns rows : Nat) (holds : Nat → Nat → Bool) :
    ((grid columns rows).filter fun point => holds point.x point.y = true).card =
      ∑ y ∈ Finset.range rows, (List.range columns).countP fun x => holds x y := by
  have apart : Set.InjOn (fun place : Nat × Nat => (⟨place.1, place.2⟩ : Point))
      ((Finset.range columns ×ˢ Finset.range rows).filter fun place =>
        holds place.1 place.2 = true) := by
    rintro ⟨x, y⟩ - ⟨otherX, otherY⟩ - same
    rw [Point.mk.injEq] at same
    exact Prod.ext same.1 same.2
  calc ((grid columns rows).filter fun point => holds point.x point.y = true).card
      = ((Finset.range columns ×ˢ Finset.range rows).filter fun place =>
          holds place.1 place.2 = true).card := by
        rw [grid, Finset.filter_image, Finset.card_image_of_injOn apart]
    _ = ∑ y ∈ Finset.range rows, ∑ x ∈ Finset.range columns,
          if holds x y = true then 1 else 0 := by
        rw [Finset.card_filter, Finset.sum_product_right]
    _ = ∑ y ∈ Finset.range rows, (List.range columns).countP fun x => holds x y :=
        Finset.sum_congr rfl fun y _ => (countP_range columns fun x => holds x y).symm

/-- Each element of one set that is also in another is missing from the difference twice. -/
theorem card_symmDiff_add {α : Type} [DecidableEq α] (left right : Finset α) :
    (symmDiff left right).card + 2 * (left ∩ right).card = left.card + right.card := by
  have apart : Disjoint (left \ right) (right \ left) := disjoint_sdiff_sdiff
  have whole : (symmDiff left right).card = (left \ right).card + (right \ left).card :=
    Finset.card_union_of_disjoint apart
  have first := Finset.card_sdiff_add_card_inter left right
  have second := Finset.card_sdiff_add_card_inter right left
  rw [Finset.inter_comm] at second
  omega

namespace Screen

/-! ### The set of lit points -/

def litPoints (screen : Screen) : Finset Point :=
  (grid width height).filter fun point => screen.get point.x point.y = true

theorem mem_litPoints_iff {screen : Screen} {point : Point} :
    point ∈ screen.litPoints ↔ screen.get point.x point.y = true := by
  rw [litPoints, Finset.mem_filter, mem_grid_iff]
  exact ⟨fun both => both.2, fun lit => ⟨onScreen_of_get lit, lit⟩⟩

theorem litPoints_injective : Function.Injective litPoints := by
  intro left right same
  apply ext_get
  intro x y _ _
  have member := Finset.ext_iff.mp same ⟨x, y⟩
  rw [mem_litPoints_iff, mem_litPoints_iff] at member
  exact Bool.eq_iff_iff.mpr member

private theorem rows_eq (screen : Screen) :
    screen.rows.toList = (List.range height).map screen.row := by
  apply List.ext_getElem
  · rw [Vector.length_toList, List.length_map, List.length_range]
    rfl
  · intro y inRows inRange
    have inside : y < 32 := by simpa using inRows
    simp [row, inside]

theorem card_litPoints (screen : Screen) : screen.litPoints.card = screen.lit := by
  rw [litPoints, card_filter_grid, lit, rows_eq, List.map_map]
  rfl

/-! ### Drawing on the set -/

private theorem mem_grid_of_landed {wrap : Bool} {corner point : Point} {sprite : List UInt8}
    (member : point ∈ landed wrap corner sprite) : point ∈ grid width height := by
  obtain ⟨line, -, bit, -, -, lands⟩ := mem_landed_iff.mp member
  rw [mem_grid_iff]
  cases wrap with
  | true =>
      simp only [Lands, if_true] at lands
      rw [lands.1, lands.2]
      exact ⟨Nat.mod_lt _ (by decide), Nat.mod_lt _ (by decide)⟩
  | false =>
      simp only [Lands, Bool.false_eq_true, if_false] at lands
      exact lands.2.2

/-- Drawing lights the points on which a bit lands if they were dark, and puts them out if they
were lit. -/
theorem litPoints_draw (screen : Screen) (wrap : Bool) (corner : Point) {sprite : List UInt8}
    (low : sprite.length ≤ 32) :
    (screen.draw wrap corner sprite).1.litPoints =
      symmDiff screen.litPoints (landed wrap corner sprite).toFinset := by
  ext point
  rw [mem_litPoints_iff, Finset.mem_symmDiff, mem_litPoints_iff, List.mem_toFinset]
  by_cases onScreen : point ∈ grid width height
  · obtain ⟨inColumn, inRow⟩ := mem_grid_iff.mp onScreen
    rw [get_draw screen wrap corner low inColumn inRow]
    by_cases covered : point ∈ landed wrap corner sprite
    · simp [covered]
    · simp [covered]
  · have untouched : point ∉ landed wrap corner sprite := mt mem_grid_of_landed onScreen
    have dark (shown : Screen) : shown.get point.x point.y = false :=
      Bool.eq_false_iff.mpr fun lit => onScreen (mem_grid_iff.mpr (onScreen_of_get lit))
    simp [dark, untouched]

end Screen

namespace Machine

variable {machine : Machine} {word : UInt16} {x y rows : Nat}

/-! ### The bits of a sprite -/

/-- The point on which a bit lands. A bit is told by its line and its place in the line. -/
def spot (machine : Machine) (x y : Nat) (bit : Nat × Nat) : Point :=
  ⟨((machine.corner x y).x + bit.2) % 64, ((machine.corner x y).y + bit.1) % 32⟩

/-- The lit bits of the sprite at the index register that land on the screen: all of them if
sprites wrap, and otherwise those that are not past its right or bottom edge. -/
def landingBits (machine : Machine) (x y rows : Nat) : Finset (Nat × Nat) :=
  (Finset.range rows ×ˢ Finset.range 8).filter fun bit =>
    (machine.memory.byte (machine.index.toNat + bit.1)).toNat.testBit (7 - bit.2) = true ∧
      (machine.settings.dialect.wrapsSprites = true ∨
        (machine.corner x y).x + bit.2 < 64 ∧ (machine.corner x y).y + bit.1 < 32)

def meetingBits (machine : Machine) (x y rows : Nat) : Finset (Nat × Nat) :=
  (machine.landingBits x y rows).filter fun bit =>
    machine.screen.get (machine.spot x y bit).x (machine.spot x y bit).y = true

private theorem lands_iff {wrap : Bool} {corner point : Point} {line bit : Nat} :
    Screen.Lands wrap corner line bit point ↔
      (wrap = true ∨ corner.x + bit < 64 ∧ corner.y + line < 32) ∧
        point = ⟨(corner.x + bit) % 64, (corner.y + line) % 32⟩ := by
  rcases point with ⟨column, row⟩
  rw [Point.mk.injEq]
  cases wrap with
  | true =>
      simp only [Screen.Lands, if_true, true_or, true_and]
  | false =>
      simp only [Screen.Lands, Bool.false_eq_true, if_false, false_or]
      omega

theorem covers_iff {point : Point} :
    machine.Covers x y rows point ↔
      point ∈ (machine.landingBits x y rows).image (machine.spot x y) := by
  simp only [Covers, lands_iff, Finset.mem_image, landingBits, Finset.mem_filter,
    Finset.mem_product, Finset.mem_range, Prod.exists]
  constructor
  · rintro ⟨line, inSprite, bit, inByte, lit, inside, rfl⟩
    exact ⟨line, bit, ⟨⟨inSprite, inByte⟩, lit, inside⟩, rfl⟩
  · rintro ⟨line, bit, ⟨⟨inSprite, inByte⟩, lit, inside⟩, rfl⟩
    exact ⟨line, inSprite, bit, inByte, lit, inside, rfl⟩

theorem spot_injOn (machine : Machine) (x y : Nat) (low : rows < 16) :
    Set.InjOn (machine.spot x y) (machine.landingBits x y rows) := by
  rintro ⟨line, bit⟩ member ⟨otherLine, otherBit⟩ otherMember same
  simp only [landingBits, Finset.coe_filter, Finset.mem_product, Finset.mem_range,
    Set.mem_ofPred_eq] at member otherMember
  simp only [spot, Point.mk.injEq] at same
  rw [Prod.mk.injEq]
  omega

/-! ### The lit points after a draw -/

theorem litPoints_afterDraw (machine : Machine) (word : UInt16) (x y : Nat) (low : rows < 16) :
    (machine.afterDraw word x y rows).screen.litPoints =
      symmDiff machine.screen.litPoints
        ((machine.landingBits x y rows).image (machine.spot x y)) := by
  have covered : (Screen.landed machine.settings.dialect.wrapsSprites (machine.corner x y)
      (machine.block rows)).toFinset = (machine.landingBits x y rows).image (machine.spot x y) := by
    ext point
    rw [List.mem_toFinset, mem_landed_block_iff, covers_iff]
  rw [← covered]
  exact Screen.litPoints_draw machine.screen _ _ (length_block_le machine low)

private theorem lit_afterDraw (machine : Machine) (word : UInt16) (x y : Nat) (low : rows < 16) :
    (machine.afterDraw word x y rows).screen.lit + 2 * (machine.meetingBits x y rows).card =
      machine.screen.lit + (machine.landingBits x y rows).card := by
  have met : machine.screen.litPoints ∩ (machine.landingBits x y rows).image (machine.spot x y) =
      (machine.meetingBits x y rows).image (machine.spot x y) := by
    ext point
    simp only [Finset.mem_inter, Screen.mem_litPoints_iff, Finset.mem_image, meetingBits,
      Finset.mem_filter]
    constructor
    · rintro ⟨lit, bit, lands, rfl⟩
      exact ⟨bit, ⟨lands, lit⟩, rfl⟩
    · rintro ⟨bit, ⟨lands, lit⟩, rfl⟩
      exact ⟨lit, bit, lands, rfl⟩
  have apart := machine.spot_injOn x y low
  have apartMet : Set.InjOn (machine.spot x y) (machine.meetingBits x y rows) :=
    apart.mono (Finset.coe_subset.mpr (Finset.filter_subset _ _))
  have counted := card_symmDiff_add machine.screen.litPoints
    ((machine.landingBits x y rows).image (machine.spot x y))
  rw [← litPoints_afterDraw machine word x y low, met, Finset.card_image_of_injOn apart,
    Finset.card_image_of_injOn apartMet, Screen.card_litPoints, Screen.card_litPoints] at counted
  exact counted

theorem exists_meeting_iff :
    (∃ point, machine.Covers x y rows point ∧ machine.screen.get point.x point.y = true) ↔
      0 < (machine.meetingBits x y rows).card := by
  simp only [Finset.card_pos, Finset.Nonempty, meetingBits, Finset.mem_filter, covers_iff,
    Finset.mem_image]
  constructor
  · rintro ⟨_, ⟨bit, lands, rfl⟩, lit⟩
    exact ⟨bit, lands, lit⟩
  · rintro ⟨bit, lands, lit⟩
    exact ⟨_, ⟨bit, lands, rfl⟩, lit⟩

/-- Every bit of a sprite that lands lights a point, unless it meets one that is lit and puts it
out. The flag register tells whether any did, so it is clear exactly if the screen has gained a
point for every landing bit. -/
theorem tick_accounts_for_lit_points (x y rows : Nat) (busy : machine.isIdle = false)
    (fetched : machine.Fetches word)
    (named : word.toNat = 0xd000 + 0x100 * x + 0x10 * y + rows) (first : x < 16)
    (second : y < 16) (low : rows < 16) (dice : Dice)
    (succeeded : (machine.tick dice).result = .ok ()) :
    let after := (machine.tick dice).machine
    let landing := (machine.landingBits x y rows).card
    let meeting := (machine.meetingBits x y rows).card
    after.screen.lit + 2 * meeting = machine.screen.lit + landing ∧
      (after.registers.read 0xf = 1 ↔ 0 < meeting) ∧
      (after.registers.read 0xf = 0 ↔ after.screen.lit = machine.screen.lit + landing) := by
  intro after landing meeting
  have drawn : after = machine.afterDraw word x y rows :=
    (tick_draw_ok_iff busy fetched named first second low).2 succeeded
  have accounted : after.screen.lit + 2 * meeting = machine.screen.lit + landing := by
    rw [drawn]
    exact lit_afterDraw machine word x y low
  refine ⟨accounted, ?_, ?_⟩
  · rw [drawn, met_afterDraw_iff machine word x y low, exists_meeting_iff]
  · have clear : after.registers.read 0xf = 0 ↔ ¬ 0 < meeting := by
      rw [drawn, unmet_afterDraw_iff machine word x y low, exists_meeting_iff]
    rw [clear]
    omega

def smudged : Machine :=
  { standard with
    memory := Memory.zeroed.store 0x200 [0xd0, 0x12, 0xc0, 0xc0]
    index := 0x202
    registers := (Registers.zeroed.write 0 62).write 1 31
    screen := Screen.blank.toggle ⟨62, 31⟩ }

/-- Two bits of the square land. One of them puts out the point that was lit. -/
theorem smudged_accounts :
    smudged.isIdle = false ∧ smudged.Fetches 0xd012 ∧
      (0xd012 : UInt16).toNat = 0xd000 + 0x100 * 0 + 0x10 * 1 + 2 ∧
      let dice : Dice := { source := fun _ => 0, taken := 0 }
      let after := (smudged.tick dice).machine
      (smudged.tick dice).result = .ok () ∧ (smudged.landingBits 0 1 2).card = 2 ∧
        (smudged.meetingBits 0 1 2).card = 1 ∧ smudged.screen.lit = 1 ∧ after.screen.lit = 1 ∧
        after.registers.read 0xf = 1 := by
  have busy : smudged.isIdle = false := by decide +kernel
  have fetched : smudged.Fetches 0xd012 := by unfold Fetches; decide +kernel
  have named : (0xd012 : UInt16).toNat = 0xd000 + 0x100 * 0 + 0x10 * 1 + 2 := rfl
  refine ⟨busy, fetched, named, ?_⟩
  intro dice after
  have succeeded : (smudged.tick dice).result = .ok () :=
    (tick_draw_ok_iff busy fetched named (by decide) (by decide) (by decide)).1.mpr
      (.inr (by decide +kernel))
  have landing : (smudged.landingBits 0 1 2).card = 2 := by decide +kernel
  have meeting : (smudged.meetingBits 0 1 2).card = 1 := by decide +kernel
  have before : smudged.screen.lit = 1 := by decide +kernel
  obtain ⟨accounted, raised, -⟩ := tick_accounts_for_lit_points 0 1 2 busy fetched named
    (by decide) (by decide) (by decide) dice succeeded
  refine ⟨succeeded, landing, meeting, before, ?_, ?_⟩
  · change after.screen.lit + 2 * (smudged.meetingBits 0 1 2).card =
      smudged.screen.lit + (smudged.landingBits 0 1 2).card at accounted
    omega
  · apply raised.mpr
    rw [meeting]
    exact Nat.one_pos

end Machine

end Chip8
