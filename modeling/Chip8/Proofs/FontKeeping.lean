import Chip8.Proofs.Drawing
import Chip8.Proofs.Resetting

/-!
The built-in font. Nothing protects its bytes, but they stand below every program, and two
instructions alone write memory. So as long as neither of them stores among the glyphs, a machine
has its font wherever a run takes it, through loads and resets; and then a glyph that is looked up
and drawn is the one that its digit names.
-/

namespace Chip8

/-- The bytes of the built-in font stand in memory from `base` on. -/
def Memory.HoldsFont (memory : Memory) (base : Nat) : Prop :=
  ∀ offset < 80, memory.byte (base + offset) = Glyphs.bytes.getD offset 0

/-- A step that stores nothing among the bytes of a font at `base`. -/
def Step.SparesFont (step : Step) (base : Nat) : Prop :=
  ∀ offset < 80, ¬ step.StoresAt (base + offset)

/-- Some lit pixel of the glyph of a digit, drawn with its corner at `corner`, lands on a point. -/
def Glyphs.Covers (wrap : Bool) (corner : Point) (digit : Nat) (point : Point) : Prop :=
  ∃ line < 5, ∃ bit < 8, ((rows digit).getD line 0).toNat.testBit (7 - bit) = true ∧
    Screen.Lands wrap corner line bit point

instance (wrap : Bool) (corner : Point) (digit : Nat) (point : Point) :
    Decidable (Glyphs.Covers wrap corner digit point) :=
  inferInstanceAs (Decidable (∃ line < 5, ∃ bit < 8, _ ∧ _))

private theorem Glyphs.getD_bytes {digit line : Nat} (shown : digit < 16) (within : line < 5) :
    bytes.getD (5 * digit + line) 0 = (rows digit).getD line 0 := by
  have every : ∀ digit < 16, ∀ line < 5,
      bytes.getD (5 * digit + line) 0 = (rows digit).getD line 0 := by decide
  exact every digit shown line within

theorem Step.sparesFont_of_above {step : Step} {base : Nat}
    (above : ∀ word, step.executes? = some word → Word.Stores word →
      base + 80 ≤ step.machine.index.toNat) : step.SparesFont base := by
  rintro offset within ⟨word, executed, stored⟩
  have bound := above word executed stored.stores
  rcases stored with ⟨-, first, -⟩ | ⟨-, first, -⟩
  · omega
  · omega

namespace Machine

variable {machine : Machine} {dice : Dice} {operations : List Operation} {program : List UInt8}

/-! ### The font is placed -/

theorem holdsFont_loaded (below : machine.font.toNat + 80 ≤ 0x200)
    (fits : program.length ≤ 3584) :
    (machine.loaded program).memory.HoldsFont machine.font.toNat := by
  intro offset within
  have outside : ¬ (0x200 ≤ machine.font.toNat + offset ∧
      machine.font.toNat + offset < 0x200 + program.length) := by omega
  have inside : machine.font.toNat ≤ machine.font.toNat + offset ∧
      machine.font.toNat + offset < machine.font.toNat + 80 := by omega
  rw [byte_loaded below fits, Memory.image, if_neg outside, if_pos inside,
    Nat.add_sub_cancel_left]

private theorem holdsFont_of_fresh (made : machine.Fresh) :
    machine.memory.HoldsFont machine.font.toNat := by
  cases made with
  | standard =>
      have below : (empty 0 .coloured .standard).font.toNat + 80 ≤ 0x200 := by decide
      have loads : standard = (empty 0 .coloured .standard).loaded [] := by
        simp only [standard, loaded, reset, empty, Memory.store, UInt16.reduceToNat]
      rw [loads]
      exact holdsFont_loaded below (Nat.zero_le 3584)
  | created font disassembler settings made =>
      obtain ⟨fits, rfl⟩ := create_eq_ok_iff.mp made
      have below : (empty font disassembler settings).font.toNat + 80 ≤ 0x200 := fits
      exact holdsFont_loaded below (Nat.zero_le 3584)

theorem exists_create_iff {font : UInt16} {disassembler : Disassembler} {settings : Settings} :
    (∃ machine, create font disassembler settings = .ok machine) ↔ font.toNat + 80 ≤ 0x200 := by
  simp only [create_eq_ok_iff, exists_and_left, exists_eq, and_true]

/-! ### The font is kept -/

structure Lettered (place : UInt16) (machine : Machine) : Prop where
  font : machine.font = place
  glyphs : machine.memory.HoldsFont place.toNat

private theorem lettered_of_spares {place : UInt16} {step : Step} (spares : Spares step)
    (spared : step.SparesFont place.toNat) (before : Lettered place step.machine) :
    Lettered place step.outcome.machine where
  font := spares.font.trans before.font
  glyphs := fun offset within =>
    ((spares.byte _).resolve_right (spared offset within)).trans (before.glyphs offset within)

/-- A load places the font anew, and any other step leaves it where it is. -/
theorem lettered_step {place : UInt16} (below : place.toNat + 80 ≤ 0x200) {step : Step}
    (single : ∀ count, step.operation ≠ .multistep count)
    (spared : step.SparesFont place.toNat) (before : Lettered place step.machine) :
    Lettered place step.outcome.machine := by
  by_cases loads : ∃ program, step.operation = .load program
  · obtain ⟨program, loading⟩ := loads
    obtain ⟨operation, machine, dice⟩ := step
    obtain ⟨rfl, glyphs⟩ := before
    subst loading
    change Lettered machine.font (machine.load program).machine
    by_cases fits : program.length ≤ 3584
    · rw [load_of_fitting below fits]
      exact ⟨font_loaded machine program, holdsFont_loaded below fits⟩
    · rw [load_of_long (Nat.lt_of_not_le fits)]
      exact ⟨rfl, glyphs⟩
  · exact lettered_of_spares (spares_step single fun program loading => loads ⟨program, loading⟩)
      spared before

private theorem lettered_run (made : machine.Fresh)
    (spared : ∀ step ∈ machine.singleSteps dice operations, step.SparesFont machine.font.toNat) :
    (∀ step ∈ machine.singleSteps dice operations, Lettered machine.font step.machine) ∧
      Lettered machine.font (machine.run dice operations).machine := by
  have below : machine.font.toNat + 80 ≤ 0x200 := (sound_of_fresh made).font
  refine singleSteps_keep (Lettered machine.font) (fun step member before => ?_)
    ⟨rfl, holdsFont_of_fresh made⟩
  exact lettered_step below (single_of_mem member) (spared step member) before

/-! ### A glyph is looked up -/

private theorem tick_glyph {word : UInt16} {x : Nat} (busy : machine.isIdle = false)
    (fetched : machine.Fetches word) (named : word.toNat = 0xf029 + 0x100 * x)
    (existing : x < 16) (dice : Dice) :
    machine.tick dice =
      { result := .ok ()
        machine :=
          { machine.poised word with
            index := machine.font + UInt16.ofNat (5 * (machine.registers.read x).toNat) }
        dice := dice
        trace := (machine.poised word).traceLines } := by
  have decoded : Instruction.ofWord? word = some (.register .glyph (UInt64.ofNat x)) :=
    Instruction.ofWord?_of_registerDigits 0xf 0x2 0x9 (by omega) (by omega) rfl existing
      (by omega)
  have ran : (machine.poised word).execute dice.roll (.register .glyph (UInt64.ofNat x)) =
      .ok { machine.poised word with
        index := machine.font + UInt16.ofNat (5 * (machine.registers.read x).toNat) } := by
    simp only [execute, executeRegister, read, Instruction.toNat_registerNumber existing]
    rfl
  rw [tick_of_executed busy fetched decoded ran]
  rfl

theorem toNat_glyph_address {font : UInt16} (below : font.toNat + 80 ≤ 0x200) (value : UInt8) :
    (font + UInt16.ofNat (5 * value.toNat)).toNat = font.toNat + 5 * value.toNat := by
  have bound := value.toNat_lt
  rw [UInt16.toNat_add, UInt16.toNat_ofNat']
  omega

theorem byte_of_glyph {base digit : Nat} (holds : machine.memory.HoldsFont base)
    (points : machine.index.toNat = base + 5 * digit) (shown : digit < 16) {line : Nat}
    (within : line < 5) :
    machine.memory.byte (machine.index.toNat + line) = (Glyphs.rows digit).getD line 0 := by
  rw [points, Nat.add_assoc, holds _ (by omega), Glyphs.getD_bytes shown within]

private theorem block_of_glyph {base digit : Nat} (holds : machine.memory.HoldsFont base)
    (points : machine.index.toNat = base + 5 * digit) (shown : digit < 16) :
    machine.block 5 = Glyphs.rows digit := by
  have size : (Glyphs.rows digit).length = 5 := Glyphs.length_rows digit shown
  apply List.ext_getElem
  · rw [length_block, size]
  · intro line inBlock inRows
    have within : line < 5 := size ▸ inRows
    have row := (getD_block machine within).trans (byte_of_glyph holds points shown within)
    simpa only [List.getD_eq_getElem?_getD, List.getElem?_eq_getElem inBlock,
      List.getElem?_eq_getElem inRows, Option.getD_some] using row

/-! ### A glyph is drawn -/

private theorem covers_of_glyph {base digit : Nat} (holds : machine.memory.HoldsFont base)
    (points : machine.index.toNat = base + 5 * digit) (shown : digit < 16) {x y : Nat}
    {point : Point} :
    machine.Covers x y 5 point ↔
      Glyphs.Covers machine.settings.dialect.wrapsSprites (machine.corner x y) digit point := by
  unfold Covers Glyphs.Covers
  refine exists_congr fun line => and_congr_right fun within => ?_
  rw [byte_of_glyph holds points shown within]

theorem tick_draws_glyph {base digit x y : Nat} (holds : machine.memory.HoldsFont base)
    (below : base + 80 ≤ 0x200) (points : machine.index.toNat = base + 5 * digit)
    (shown : digit < 16) {word : UInt16} (busy : machine.isIdle = false)
    (fetched : machine.Fetches word) (named : word.toNat = 0xd005 + 0x100 * x + 0x10 * y)
    (first : x < 16) (second : y < 16) (dice : Dice) :
    let drawn := machine.tick dice
    drawn.result = .ok () ∧ ∀ px py, px < 64 → py < 32 →
      drawn.machine.screen.get px py =
        (machine.screen.get px py ^^
          decide (Glyphs.Covers machine.settings.dialect.wrapsSprites (machine.corner x y) digit
            ⟨px, py⟩)) := by
  intro drawn
  have spelled : word.toNat = 0xd000 + 0x100 * x + 0x10 * y + 5 := by omega
  obtain ⟨succeeds, leaves⟩ : _ ∧ (drawn.result = .ok () → _) :=
    tick_draw_ok_iff busy fetched spelled first second (by decide)
  have succeeded : drawn.result = .ok () := succeeds.mpr (.inr (by omega))
  refine ⟨succeeded, ?_⟩
  intro px py inColumn inRow
  have left : drawn.machine = machine.afterDraw word x y 5 := leaves succeeded
  rw [left, get_afterDraw machine word (by decide) inColumn inRow]
  simp only [covers_of_glyph holds points shown]

/-- A new machine accepts a font that ends before the program. However it is run, the font stays
where it is as long as no step stores among its bytes. So the glyph instruction points at the
glyph of a digit, and at no address that has wrapped for any other value of its register; and a
sprite of five rows that is drawn from there, now or later, is the glyph. -/
theorem font_is_kept (made : machine.Fresh) (dice : Dice) (operations : List Operation)
    (spared : ∀ step ∈ machine.singleSteps dice operations,
      step.SparesFont machine.font.toNat) :
    let base := machine.font.toNat
    let reached := (machine.run dice operations).machine
    (∀ font disassembler settings,
      (∃ other, create font disassembler settings = .ok other) ↔ font.toNat + 80 ≤ 0x200) ∧
    (∀ step ∈ machine.singleSteps dice operations, step.machine.memory.HoldsFont base) ∧
    reached.memory.HoldsFont base ∧
    ∀ x < 16, ∀ (word : UInt16) (rolls : Dice), reached.isIdle = false → reached.Fetches word →
      word.toNat = 0xf029 + 0x100 * x →
      let value := (reached.registers.read x).toNat
      let pointed := reached.tick rolls
      pointed.result = .ok () ∧ pointed.machine.index.toNat = base + 5 * value ∧
        pointed.machine.memory.HoldsFont base ∧
        (value ≤ 15 → pointed.machine.block 5 = Glyphs.rows value ∧
          ∀ (later : Machine) (chance : Dice), later.memory.HoldsFont base →
            later.index = pointed.machine.index → later.isIdle = false →
            ∀ left < 16, ∀ top < 16, ∀ (drawing : UInt16), later.Fetches drawing →
              drawing.toNat = 0xd005 + 0x100 * left + 0x10 * top →
              let drawn := later.tick chance
              drawn.result = .ok () ∧ ∀ px py, px < 64 → py < 32 →
                drawn.machine.screen.get px py =
                  (later.screen.get px py ^^
                    decide (Glyphs.Covers later.settings.dialect.wrapsSprites
                      (later.corner left top) value ⟨px, py⟩))) := by
  intro base reached
  obtain ⟨along, after⟩ := lettered_run made spared
  have below : base + 80 ≤ 0x200 := (sound_of_fresh made).font
  refine ⟨fun _ _ _ => exists_create_iff, fun step member => (along step member).glyphs,
    after.glyphs, ?_⟩
  intro x existing word rolls busy fetched named value pointed
  have ticked : pointed = _ := tick_glyph busy fetched named existing rolls
  have points : pointed.machine.index.toNat = base + 5 * value := by
    rw [ticked]
    change (reached.font + _).toNat = _
    rw [after.font]
    exact toNat_glyph_address below _
  have holds : pointed.machine.memory.HoldsFont base := by
    rw [ticked]
    exact after.glyphs
  refine ⟨by rw [ticked], points, holds, fun digit => ?_⟩
  have shown : value < 16 := Nat.lt_succ_of_le digit
  refine ⟨block_of_glyph holds points shown, ?_⟩
  intro later chance still same active left leftExists top topExists drawing drawFetched drawNamed
  exact tick_draws_glyph still below (same ▸ points) shown active drawFetched drawNamed leftExists
    topExists chance

def lettered : Machine := (empty 0x50 .coloured .standard).loaded []

def evenDice : Dice := { source := fun _ => 0, taken := 0 }

def spelled : List Operation :=
  [.load [0x6a, 0x0c, 0xa3, 0x00, 0xfa, 0x33, 0xfa, 0x29, 0xd0, 0x05], .multistep 3]

def spelling : Machine := (lettered.run evenDice spelled).machine

/-- The glyph of twelve is the letter C: its second line is lit at the left alone. -/
theorem spelling_keeps_font :
    lettered.Fresh ∧ (∀ step ∈ lettered.singleSteps evenDice spelled, step.SparesFont 0x50) ∧
      spelling.Fetches 0xfa29 ∧ spelling.registers.read 10 = 12 ∧
      (spelling.tick evenDice).machine.index.toNat = 0x50 + 5 * 12 ∧
      (spelling.tick evenDice).machine.block 5 = [0xf0, 0x80, 0x80, 0x80, 0xf0] ∧
      (spelling.tick evenDice).machine.Fetches 0xd005 ∧
      let drawn := (spelling.tick evenDice).machine.tick evenDice
      drawn.result = .ok () ∧ drawn.machine.screen.get 0 1 = true ∧
        drawn.machine.screen.get 3 1 = false := by
  have made : lettered.Fresh :=
    .created 0x50 .coloured .standard (create_eq_ok_iff.mpr ⟨by decide, rfl⟩)
  have clear : ((lettered.singleSteps evenDice spelled).all fun step =>
      step.executes?.all fun word =>
        !decide (Word.Stores word) || decide (0x50 + 80 ≤ step.machine.index.toNat)) = true := by
    decide +kernel
  have spared : ∀ step ∈ lettered.singleSteps evenDice spelled, step.SparesFont 0x50 := by
    intro step member
    apply Step.sparesFont_of_above
    intro word executed stores
    have here := List.all_eq_true.mp clear step member
    simpa [executed, stores] using here
  have seen : spelling.isIdle = false ∧ spelling.Fetches 0xfa29 ∧
      spelling.registers.read 10 = 12 ∧ (spelling.tick evenDice).machine.isIdle = false ∧
      (spelling.tick evenDice).machine.Fetches 0xd005 ∧
      (spelling.tick evenDice).machine.screen = .blank ∧
      (spelling.tick evenDice).machine.settings.dialect.wrapsSprites = false ∧
      (spelling.tick evenDice).machine.corner 0 0 = ⟨0, 0⟩ := by
    decide +kernel
  obtain ⟨busy, fetched, value, active, drawFetched, blank, clips, corner⟩ := seen
  have number : (spelling.registers.read 10).toNat = 12 := congrArg UInt8.toNat value
  obtain ⟨-, -, -, looksUp⟩ := font_is_kept made evenDice spelled spared
  rw [← spelling] at looksUp
  have looked := looksUp 10 (by decide) 0xfa29 evenDice busy fetched (by decide)
  rw [number] at looked
  obtain ⟨-, points, holds, glyph⟩ := looked
  obtain ⟨block, draws⟩ := glyph (by decide)
  obtain ⟨succeeded, pixel⟩ := draws (spelling.tick evenDice).machine evenDice holds rfl active
    0 (by decide) 0 (by decide) 0xd005 drawFetched (by decide)
  rw [blank, clips, corner] at pixel
  refine ⟨made, spared, fetched, value, points, block, drawFetched, succeeded, ?_, ?_⟩
  · rw [pixel 0 1 (by decide) (by decide)]
    decide
  · rw [pixel 3 1 (by decide) (by decide)]
    decide

end Machine

end Chip8
