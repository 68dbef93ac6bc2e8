import Chip8.Operation
import Chip8.Proofs.Decoding
import Chip8.Proofs.Ticking
import Chip8.Screen.Sprite

/-!
Drawing a sprite. Its pixels are toggled one after another, but no two of them land on the
same point, so the screen changes as if all were toggled at once, and a lit point was met
exactly if one has gone out.
-/

namespace Chip8.Screen

/-! ### Toggling one point after another -/

theorem get_toggleEach (screen : Screen) (points : List Point) {x y : Nat}
    (inColumn : x < width) (inRow : y < height) :
    (screen.toggleEach points).1.get x y =
      (screen.get x y ^^ decide (points.count ⟨x, y⟩ % 2 = 1)) := by
  induction points generalizing screen with
  | nil => simp [toggleEach]
  | cons point points ih =>
      have unfolded : (screen.toggleEach (point :: points)).1 =
          ((screen.toggle point).toggleEach points).1 := rfl
      rw [unfolded, ih, get_toggle, List.count_cons]
      by_cases same : point = ⟨x, y⟩
      · subst same
        have flips : decide ((points.count ⟨x, y⟩ + 1) % 2 = 1) =
            !decide (points.count ⟨x, y⟩ % 2 = 1) := by
          rw [← decide_not, decide_eq_decide]
          omega
        simp [inColumn, inRow, flips]
      · have elsewhere : ¬ (point.x = x ∧ point.y = y) :=
          fun ⟨sameColumn, sameRow⟩ => same (by rw [← sameColumn, ← sameRow])
        have apart : ¬ (point.x = x ∧ point.y = y ∧ x < width ∧ y < height) :=
          fun ⟨sameColumn, sameRow, _⟩ => elsewhere ⟨sameColumn, sameRow⟩
        simp [apart, same]

private theorem get_toggleEach_of_nodup (screen : Screen) {points : List Point}
    (distinct : points.Nodup) {x y : Nat} (inColumn : x < width) (inRow : y < height) :
    (screen.toggleEach points).1.get x y =
      (screen.get x y ^^ decide (⟨x, y⟩ ∈ points)) := by
  rw [get_toggleEach screen points inColumn inRow, distinct.count]
  split
  · rename_i present
    simp [present]
  · rename_i absent
    simp [absent]

private theorem toggleEach_collided (screen : Screen) {points : List Point}
    (distinct : points.Nodup) :
    (screen.toggleEach points).2 = points.any fun point => screen.get point.x point.y := by
  induction points generalizing screen with
  | nil => rfl
  | cons point points ih =>
      obtain ⟨fresh, rest⟩ := List.nodup_cons.mp distinct
      have unfolded : (screen.toggleEach (point :: points)).2 =
          (screen.get point.x point.y || ((screen.toggle point).toggleEach points).2) := rfl
      have untouched : ∀ other ∈ points,
          (screen.toggle point).get other.x other.y = screen.get other.x other.y := by
        intro other member
        have apart : ¬ (point.x = other.x ∧ point.y = other.y) := by
          intro same
          rcases same with ⟨sameColumn, sameRow⟩
          rcases point with ⟨x, y⟩
          rcases other with ⟨otherX, otherY⟩
          cases sameColumn
          cases sameRow
          exact fresh member
        rw [get_toggle, decide_eq_false (fun both => apart ⟨both.1, both.2.1⟩), Bool.xor_false]
      have sameRest : (points.any fun other => (screen.toggle point).get other.x other.y) =
          points.any fun other => screen.get other.x other.y := by
        rw [Bool.eq_iff_iff, List.any_eq_true, List.any_eq_true]
        exact exists_congr fun other =>
          and_congr_right fun member => by rw [untouched other member]
      rw [unfolded, ih _ rest, List.any_cons, sameRest]

/-! ### Where the pixels of a sprite land -/

theorem mem_litPixels_iff {sprite : List UInt8} {pixel : Point} :
    pixel ∈ litPixels sprite ↔
      pixel.x < 8 ∧ pixel.y < sprite.length ∧ Bits.ofByte (sprite.getD pixel.y 0) pixel.x := by
  simp only [litPixels, List.mem_flatMap, List.mem_map, List.mem_filter, List.mem_range,
    Prod.exists, List.mk_mem_zipIdx_iff_getElem?]
  constructor
  · intro listed
    rcases listed with ⟨bits, line, found, position, ⟨inByte, lit⟩, rfl⟩
    obtain ⟨inSprite, -⟩ := List.getElem?_eq_some_iff.mp found
    simp only [List.getD_eq_getElem?_getD, found, Option.getD_some]
    exact ⟨inByte, inSprite, lit⟩
  · intro shown
    rcases shown with ⟨inByte, inSprite, lit⟩
    have found : sprite[pixel.y]? = some sprite[pixel.y] := List.getElem?_eq_getElem inSprite
    rw [List.getD_eq_getElem?_getD, found, Option.getD_some] at lit
    exact ⟨sprite[pixel.y], pixel.y, found, pixel.x, ⟨inByte, lit⟩, rfl⟩

private theorem nodup_litPixels (sprite : List UInt8) : (litPixels sprite).Nodup := by
  rw [List.Nodup, litPixels, List.pairwise_flatMap]
  constructor
  · rintro ⟨bits, line⟩ -
    rw [List.pairwise_map]
    refine List.Pairwise.imp ?_ (List.nodup_range.filter _)
    intro left right different same
    exact different (congrArg Point.x same)
  · have lines : (sprite.zipIdx.map Prod.snd).Nodup := by
      rw [List.zipIdx_map_snd]
      exact List.nodup_range'
    refine List.Pairwise.imp ?_ (List.pairwise_map.mp lines)
    rintro ⟨bits, line⟩ ⟨otherBits, otherLine⟩ different left leftMember right rightMember same
    obtain ⟨position, -, rfl⟩ := List.mem_map.mp leftMember
    obtain ⟨otherPosition, -, rfl⟩ := List.mem_map.mp rightMember
    exact different (congrArg Point.y same)

/-- The pixel in column `bit` and line `line` of a sprite lands on a point. -/
def Lands (wrap : Bool) (corner : Point) (line bit : Nat) (point : Point) : Prop :=
  if wrap then point.x = (corner.x + bit) % 64 ∧ point.y = (corner.y + line) % 32
  else point.x = corner.x + bit ∧ point.y = corner.y + line ∧ point.x < 64 ∧ point.y < 32

instance (wrap : Bool) (corner : Point) (line bit : Nat) (point : Point) :
    Decidable (Lands wrap corner line bit point) :=
  inferInstanceAs (Decidable (if wrap then _ else _))

theorem land_eq_some_iff {wrap : Bool} {corner pixel point : Point} :
    land wrap corner pixel = some point ↔ Lands wrap corner pixel.y pixel.x point := by
  rcases point with ⟨x, y⟩
  cases wrap with
  | true =>
      simp only [land, Lands, if_true, Option.some.injEq, Point.mk.injEq]
      exact ⟨fun ⟨column, row⟩ => ⟨column.symm, row.symm⟩,
        fun ⟨column, row⟩ => ⟨column.symm, row.symm⟩⟩
  | false =>
      simp only [land, Lands, Bool.false_eq_true, if_false]
      by_cases onScreen : corner.x + pixel.x < width ∧ corner.y + pixel.y < height
      · rw [if_pos onScreen, Option.some.injEq, Point.mk.injEq]
        constructor
        · rintro ⟨rfl, rfl⟩
          exact ⟨rfl, rfl, onScreen⟩
        · rintro ⟨rfl, rfl, -⟩
          exact ⟨rfl, rfl⟩
      · rw [if_neg onScreen]
        constructor
        · intro lands
          cases lands
        · intro lands
          rcases lands with ⟨rfl, rfl, inside⟩
          exact absurd inside onScreen

/-- No two pixels of a sprite that is no higher than the screen land on one point. -/
theorem Lands.unique {wrap : Bool} {corner point : Point} {line bit otherLine otherBit : Nat}
    (inByte : bit < 8) (otherInByte : otherBit < 8) (inSprite : line < 32)
    (otherInSprite : otherLine < 32) (lands : Lands wrap corner line bit point)
    (otherLands : Lands wrap corner otherLine otherBit point) :
    line = otherLine ∧ bit = otherBit := by
  cases wrap with
  | true =>
      simp only [Lands, if_true] at lands otherLands
      omega
  | false =>
      simp only [Lands, Bool.false_eq_true, if_false] at lands otherLands
      omega

theorem nodup_landed (wrap : Bool) (corner : Point) {sprite : List UInt8}
    (low : sprite.length ≤ 32) : (landed wrap corner sprite).Nodup := by
  rw [List.Nodup, landed, List.pairwise_filterMap]
  refine List.Pairwise.imp_of_mem ?_ (nodup_litPixels sprite)
  intro pixel other member otherMember different point lands otherPoint otherLands same
  subst same
  obtain ⟨inByte, inSprite, -⟩ := mem_litPixels_iff.mp member
  obtain ⟨otherInByte, otherInSprite, -⟩ := mem_litPixels_iff.mp otherMember
  obtain ⟨sameLine, sameBit⟩ := Lands.unique inByte otherInByte (by omega) (by omega)
    (land_eq_some_iff.mp lands) (land_eq_some_iff.mp otherLands)
  rcases pixel with ⟨x, y⟩
  rcases other with ⟨otherX, otherY⟩
  exact different (Point.mk.injEq .. ▸ ⟨sameBit, sameLine⟩)

theorem mem_landed_iff {wrap : Bool} {corner point : Point} {sprite : List UInt8} :
    point ∈ landed wrap corner sprite ↔
      ∃ line < sprite.length, ∃ bit < 8, Bits.ofByte (sprite.getD line 0) bit ∧
        Lands wrap corner line bit point := by
  rw [landed, List.mem_filterMap]
  constructor
  · intro landing
    rcases landing with ⟨pixel, member, lands⟩
    obtain ⟨inByte, inSprite, lit⟩ := mem_litPixels_iff.mp member
    exact ⟨pixel.y, inSprite, pixel.x, inByte, lit, land_eq_some_iff.mp lands⟩
  · intro covered
    rcases covered with ⟨line, inSprite, bit, inByte, lit, lands⟩
    exact ⟨⟨bit, line⟩, mem_litPixels_iff.mpr ⟨inByte, inSprite, lit⟩,
      land_eq_some_iff.mpr lands⟩

/-! ### The screen after a draw -/

theorem get_draw (screen : Screen) (wrap : Bool) (corner : Point) {sprite : List UInt8}
    (low : sprite.length ≤ 32) {x y : Nat} (inColumn : x < width) (inRow : y < height) :
    (screen.draw wrap corner sprite).1.get x y =
      (screen.get x y ^^ decide (⟨x, y⟩ ∈ landed wrap corner sprite)) :=
  get_toggleEach_of_nodup screen (nodup_landed wrap corner low) inColumn inRow

theorem onScreen_of_get {screen : Screen} {x y : Nat} (lit : screen.get x y = true) :
    x < width ∧ y < height := by
  constructor
  · apply Nat.lt_of_not_le
    intro outside
    rw [get_eq_false_of_width_le screen y outside] at lit
    cases lit
  · apply Nat.lt_of_not_le
    intro outside
    rw [get_eq_false_of_height_le screen x outside] at lit
    cases lit

theorem draw_met_iff (screen : Screen) (wrap : Bool) (corner : Point) {sprite : List UInt8}
    (low : sprite.length ≤ 32) :
    (screen.draw wrap corner sprite).2 = true ↔
      ∃ point ∈ landed wrap corner sprite, screen.get point.x point.y = true := by
  rw [draw, toggleEach_collided screen (nodup_landed wrap corner low), List.any_eq_true]

private theorem draw_collided_iff (screen : Screen) (wrap : Bool) (corner : Point)
    {sprite : List UInt8} (low : sprite.length ≤ 32) :
    (screen.draw wrap corner sprite).2 = true ↔
      ∃ x y, screen.get x y = true ∧ (screen.draw wrap corner sprite).1.get x y = false := by
  rw [draw_met_iff screen wrap corner low]
  constructor
  · intro met
    rcases met with ⟨⟨x, y⟩, member, lit⟩
    obtain ⟨inColumn, inRow⟩ := onScreen_of_get lit
    refine ⟨x, y, lit, ?_⟩
    rw [get_draw screen wrap corner low inColumn inRow, lit, decide_eq_true member]
    rfl
  · intro goesOut
    rcases goesOut with ⟨x, y, lit, dark⟩
    obtain ⟨inColumn, inRow⟩ := onScreen_of_get lit
    rw [get_draw screen wrap corner low inColumn inRow, lit, Bool.true_xor,
      Bool.not_eq_false', decide_eq_true_eq] at dark
    exact ⟨⟨x, y⟩, dark, lit⟩

end Chip8.Screen

namespace Chip8.Machine

variable {machine : Machine} {dice : Dice} {word : UInt16} {x y rows : Nat}

/-! ### The drawing instruction -/

/-- Where the corner of a sprite is placed: in the column that register `x` holds and the
line that register `y` holds. -/
def corner (machine : Machine) (x y : Nat) : Point :=
  ⟨(machine.registers.read x).toNat, (machine.registers.read y).toNat⟩

/-- Some lit bit of the bytes at the index register lands on a point. -/
def Covers (machine : Machine) (x y rows : Nat) (point : Point) : Prop :=
  ∃ line < rows, ∃ bit < 8,
    (machine.memory.byte (machine.index.toNat + line)).toNat.testBit (7 - bit) = true ∧
      Screen.Lands machine.settings.dialect.wrapsSprites (machine.corner x y) line bit point

instance (machine : Machine) (x y rows : Nat) (point : Point) :
    Decidable (machine.Covers x y rows point) :=
  inferInstanceAs (Decidable (∃ line < rows, ∃ bit < 8, _ ∧ _))

theorem mem_landed_block_iff {point : Point} :
    point ∈ Screen.landed machine.settings.dialect.wrapsSprites (machine.corner x y)
        (machine.block rows) ↔
      machine.Covers x y rows point := by
  rw [Screen.mem_landed_iff, length_block]
  refine exists_congr fun line => and_congr_right fun inside => ?_
  rw [getD_block machine inside]
  rfl

/-- The machine that has drawn the sprite which its word names. -/
def afterDraw (machine : Machine) (word : UInt16) (x y rows : Nat) : Machine :=
  let drawing := machine.screen.draw machine.settings.dialect.wrapsSprites
    (machine.corner x y) (machine.block rows)
  { machine.poised word with
    screen := drawing.1
    registers := machine.registers.writeFlag drawing.2
    drawn := decide (0 < rows) }

theorem length_block_le (machine : Machine) (low : rows < 16) :
    (machine.block rows).length ≤ 32 := by
  rw [length_block]
  omega

theorem get_afterDraw (machine : Machine) (word : UInt16) (low : rows < 16) {px py : Nat}
    (inColumn : px < 64) (inRow : py < 32) :
    (machine.afterDraw word x y rows).screen.get px py =
      (machine.screen.get px py ^^ decide (machine.Covers x y rows ⟨px, py⟩)) := by
  have pixel := Screen.get_draw machine.screen machine.settings.dialect.wrapsSprites
    (machine.corner x y) (length_block_le machine low) inColumn inRow
  simp only [mem_landed_block_iff] at pixel
  exact pixel

private theorem read_flag_afterDraw (machine : Machine) (word : UInt16) (x y rows : Nat) :
    (machine.afterDraw word x y rows).registers.read 15 =
      Registers.bit (machine.screen.draw machine.settings.dialect.wrapsSprites
        (machine.corner x y) (machine.block rows)).2 :=
  machine.registers.read_writeFlag _

theorem met_afterDraw_iff (machine : Machine) (word : UInt16) (x y : Nat) (low : rows < 16) :
    (machine.afterDraw word x y rows).registers.read 15 = 1 ↔
      ∃ point, machine.Covers x y rows point ∧ machine.screen.get point.x point.y = true := by
  rw [read_flag_afterDraw, Registers.bit_eq_one_iff,
    Screen.draw_met_iff _ _ _ (length_block_le machine low)]
  simp only [mem_landed_block_iff]

theorem unmet_afterDraw_iff (machine : Machine) (word : UInt16) (x y : Nat) (low : rows < 16) :
    (machine.afterDraw word x y rows).registers.read 15 = 0 ↔
      ¬ ∃ point, machine.Covers x y rows point ∧ machine.screen.get point.x point.y = true := by
  rw [← met_afterDraw_iff machine word x y low, read_flag_afterDraw, Registers.bit_eq_zero_iff,
    Registers.bit_eq_one_iff, Bool.not_eq_true]

theorem flag_afterDraw (machine : Machine) (word : UInt16) (x y : Nat) (low : rows < 16) :
    let after := machine.afterDraw word x y rows
    let goesOut := ∃ px py, machine.screen.get px py = true ∧ after.screen.get px py = false
    goesOut ∧ after.registers.read 15 = 1 ∨ ¬ goesOut ∧ after.registers.read 15 = 0 := by
  intro after goesOut
  have collides : _ = true ↔ goesOut := Screen.draw_collided_iff machine.screen
    machine.settings.dialect.wrapsSprites (machine.corner x y) (length_block_le machine low)
  rw [read_flag_afterDraw]
  cases collided : (machine.screen.draw machine.settings.dialect.wrapsSprites
      (machine.corner x y) (machine.block rows)).2 with
  | true => exact .inl ⟨collides.mp collided, rfl⟩
  | false =>
      refine .inr ⟨?_, rfl⟩
      intro lost
      rw [collides.mpr lost] at collided
      cases collided

private theorem afterDraw_eq (machine : Machine) (word : UInt16) (x y rows : Nat) :
    machine.afterDraw word x y rows =
      { machine with
        screen := (machine.afterDraw word x y rows).screen
        registers :=
          machine.registers.write 15 ((machine.afterDraw word x y rows).registers.read 15)
        drawn := (machine.afterDraw word x y rows).drawn
        pc := machine.pc + 2
        cycle := machine.cycle + 1
        fetched := { address := machine.pc, word := word } } := by
  rw [read_flag_afterDraw]
  rfl

private theorem execute_draw (machine : Machine) (word : UInt16) {first second : UInt64}
    {height : UInt8}
    (firstAt : first.toNat = x) (secondAt : second.toNat = y) (heightAt : height.toNat = rows)
    (roll : UInt8) :
    (machine.poised word).execute roll (.sprite first second height) =
      (machine.poised word).withBlock rows (machine.afterDraw word x y rows) := by
  subst firstAt secondAt heightAt
  have shown : (false || decide (0 < height)) = decide (0 < height.toNat) := by
    rw [Bool.false_or, decide_eq_decide, UInt8.lt_iff_toNat_lt]
    rfl
  rw [execute, executeSprite_eq, afterDraw]
  simp only [← shown]
  rfl

theorem tick_draw_ok_iff (busy : machine.isIdle = false) (fetched : machine.Fetches word)
    (named : word.toNat = 0xd000 + 0x100 * x + 0x10 * y + rows) (first : x < 16)
    (second : y < 16) (low : rows < 16) :
    ((machine.tick dice).result = .ok () ↔
        rows = 0 ∨ machine.index.toNat + rows ≤ 0x1000) ∧
      ((machine.tick dice).result = .ok () →
        (machine.tick dice).machine = machine.afterDraw word x y rows) := by
  have digit : word.toNat / 4096 = 0xd := by omega
  obtain ⟨left, top, height, decoded⟩ := Instruction.exists_sprite_of_named digit
  obtain ⟨-, column, line, lines⟩ := Instruction.ofWord?_eq_sprite_iff.mp decoded
  have leftAt : left.toNat = x := by omega
  have topAt : top.toNat = y := by omega
  have heightAt : height.toNat = rows := by omega
  have draws := execute_draw machine word leftAt topAt heightAt dice.roll
  by_cases reaches : (machine.poised word).Reaches rows
  · have ran := draws.trans (withBlock_eq_ok_iff.mpr ⟨reaches, rfl⟩)
    rw [tick_of_executed busy fetched decoded ran]
    exact ⟨iff_of_true rfl reaches, fun _ => rfl⟩
  · have refused := draws.trans (withBlock_eq_error_iff.mpr ⟨reaches, rfl⟩)
    rw [tick_of_refused busy fetched decoded refused]
    exact ⟨iff_of_false nofun reaches, nofun⟩

/-- A drawing instruction that succeeds toggles every point of the screen on which a lit bit
lands, and no two bits land on one point. The flag register tells whether a lit point has
gone out, and nothing else changes but what every instruction changes. -/
theorem tick_draws_sprite (x y rows : Nat) (busy : machine.isIdle = false)
    (fetched : machine.Fetches word)
    (named : word.toNat = 0xd000 + 0x100 * x + 0x10 * y + rows) (first : x < 16)
    (second : y < 16) (low : rows < 16) (dice : Dice) :
    ((machine.tick dice).result = .ok () ↔
        rows = 0 ∨ machine.index.toNat + rows ≤ 0x1000) ∧
      ((machine.tick dice).result = .ok () →
        let after := (machine.tick dice).machine
        let goesOut := ∃ px py,
          machine.screen.get px py = true ∧ after.screen.get px py = false
        (∀ px py, px < 64 → py < 32 →
          after.screen.get px py =
            (machine.screen.get px py ^^ decide (machine.Covers x y rows ⟨px, py⟩))) ∧
        (∀ line bit otherLine otherBit point, line < rows → bit < 8 → otherLine < rows →
          otherBit < 8 →
          Screen.Lands machine.settings.dialect.wrapsSprites (machine.corner x y)
            line bit point →
          Screen.Lands machine.settings.dialect.wrapsSprites (machine.corner x y)
            otherLine otherBit point →
          line = otherLine ∧ bit = otherBit) ∧
        (goesOut ∧ after.registers.read 15 = 1 ∨ ¬ goesOut ∧ after.registers.read 15 = 0) ∧
        (after.drawn = true ↔ 0 < rows) ∧
        after =
          { machine with
            screen := after.screen
            registers := machine.registers.write 15 (after.registers.read 15)
            drawn := after.drawn
            pc := machine.pc + 2
            cycle := machine.cycle + 1
            fetched := { address := machine.pc, word := word } }) := by
  obtain ⟨succeeds, leaves⟩ := tick_draw_ok_iff busy fetched named first second low
  refine ⟨succeeds, fun succeeded => ?_⟩
  rw [leaves succeeded]
  refine ⟨?_, ?_, flag_afterDraw machine word x y low, decide_eq_true_iff,
    afterDraw_eq machine word x y rows⟩
  · intro px py inColumn inRow
    exact get_afterDraw machine word low inColumn inRow
  · intro line bit otherLine otherBit point inSprite inByte otherInSprite otherInByte
    exact Screen.Lands.unique inByte otherInByte (by omega) (by omega)

def cornered : Machine :=
  { standard with
    settings := { Settings.standard with dialect := .uniform true }
    memory := Memory.zeroed.store 0x200 [0xdf, 0x05, 0xf0, 0x90, 0x90, 0x90, 0xf0]
    index := 0x202
    registers := (Registers.zeroed.write 15 63).write 0 31 }

/-- The top left pixel of the square lands in the last corner, the one below it in the first
line, and the dark one beside that nowhere. -/
theorem cornered_draws_square :
    cornered.isIdle = false ∧ cornered.Fetches 0xdf05 ∧
      (0xdf05 : UInt16).toNat = 0xd000 + 0x100 * 15 + 0x10 * 0 + 5 ∧
      ∀ dice,
        (cornered.tick dice).result = .ok () ∧
        (cornered.tick dice).machine.screen.get 63 31 = true ∧
        (cornered.tick dice).machine.screen.get 63 0 = true ∧
        (cornered.tick dice).machine.screen.get 0 0 = false := by
  have busy : cornered.isIdle = false := by decide +kernel
  have fetched : cornered.Fetches 0xdf05 := by unfold Fetches; decide +kernel
  refine ⟨busy, fetched, rfl, fun dice => ?_⟩
  obtain ⟨succeeds, draws⟩ := tick_draws_sprite 15 0 5 busy fetched rfl (by decide)
    (by decide) (by decide) dice
  have succeeded := succeeds.mpr (.inr (by decide +kernel))
  obtain ⟨pixel, -⟩ := draws succeeded
  refine ⟨succeeded, ?_, ?_, ?_⟩
  · rw [pixel 63 31 (by decide) (by decide)]
    decide +kernel
  · rw [pixel 63 0 (by decide) (by decide)]
    decide +kernel
  · rw [pixel 0 0 (by decide) (by decide)]
    decide +kernel

end Chip8.Machine
