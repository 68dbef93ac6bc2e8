import Chip8.Proofs.LitPoints

/-!
Sprites drawn one after another. A draw turns over the points that it marks, and which points
these are depends on nothing that a draw changes, as long as no corner is taken from the flag
register. So a sprite that is drawn twice is gone, and two sprites may be drawn in either order.
-/

namespace Chip8

/-- What a drawing instruction draws: its word, and where the index register points by then. -/
structure Stroke where
  word : UInt16
  index : UInt16
  deriving DecidableEq, Repr

namespace Stroke

def x (stroke : Stroke) : Nat := stroke.word.toNat / 256 % 16

def y (stroke : Stroke) : Nat := stroke.word.toNat / 16 % 16

def rows (stroke : Stroke) : Nat := stroke.word.toNat % 16

def Draws (stroke : Stroke) : Prop := stroke.word.toNat / 4096 = 0xd

instance (stroke : Stroke) : Decidable stroke.Draws := inferInstanceAs (Decidable (_ = _))

/-- A stroke that takes the corner of its sprite from registers other than the flag. -/
structure Steady (stroke : Stroke) : Prop where
  draws : stroke.Draws
  x : stroke.x ≠ 0xf
  y : stroke.y ≠ 0xf

theorem x_lt (stroke : Stroke) : stroke.x < 16 := Nat.mod_lt _ (by decide)

theorem y_lt (stroke : Stroke) : stroke.y < 16 := Nat.mod_lt _ (by decide)

theorem rows_lt (stroke : Stroke) : stroke.rows < 16 := Nat.mod_lt _ (by decide)

theorem Draws.named {stroke : Stroke} (draws : stroke.Draws) :
    stroke.word.toNat = 0xd000 + 0x100 * stroke.x + 0x10 * stroke.y + stroke.rows := by
  unfold Draws at draws
  unfold x y rows
  omega

end Stroke

namespace Machine

def aimed (machine : Machine) (stroke : Stroke) : Machine :=
  { machine with index := stroke.index }

def facing (machine : Machine) (address : UInt16) (stroke : Stroke) : Machine :=
  { machine.aimed stroke with pc := address }

/-- The machine, having come to a stroke, executes it. -/
def Takes (machine : Machine) (dice : Dice) (address : UInt16) (stroke : Stroke) : Prop :=
  (machine.facing address stroke).Executes dice stroke.word

instance (machine : Machine) (dice : Dice) (address : UInt16) (stroke : Stroke) :
    Decidable (machine.Takes dice address stroke) :=
  inferInstanceAs (Decidable (Executes _ _ _))

def stroked (machine : Machine) (dice : Dice) (address : UInt16) (stroke : Stroke) : Machine :=
  ((machine.facing address stroke).tick dice).machine

/-- Some lit bit of the sprite of a stroke lands on a point. -/
def Marks (machine : Machine) (stroke : Stroke) (point : Point) : Prop :=
  (machine.aimed stroke).Covers stroke.x stroke.y stroke.rows point

def marked (machine : Machine) (stroke : Stroke) : Finset Point :=
  ((machine.aimed stroke).landingBits stroke.x stroke.y stroke.rows).image
    ((machine.aimed stroke).spot stroke.x stroke.y)

section

variable {machine : Machine} {dice next : Dice} {address place : UInt16} {stroke other : Stroke}
  {point : Point}

theorem mem_marked_iff : point ∈ machine.marked stroke ↔ machine.Marks stroke point :=
  covers_iff.symm

/-! ### One stroke -/

theorem takes_iff (draws : stroke.Draws) :
    machine.Takes dice address stroke ↔
      machine.isIdle = false ∧ (machine.facing address stroke).Fetches stroke.word ∧
        (stroke.rows = 0 ∨ stroke.index.toNat + stroke.rows ≤ 0x1000) := by
  unfold Takes Executes
  refine and_congr_right fun busy => and_congr_right fun fetched => ?_
  exact (tick_draw_ok_iff busy fetched draws.named stroke.x_lt stroke.y_lt stroke.rows_lt).1

theorem stroked_eq (draws : stroke.Draws) (takes : machine.Takes dice address stroke) :
    machine.stroked dice address stroke =
      (machine.facing address stroke).afterDraw stroke.word stroke.x stroke.y stroke.rows := by
  obtain ⟨busy, fetched, succeeded⟩ := takes
  exact (tick_draw_ok_iff busy fetched draws.named stroke.x_lt stroke.y_lt
    stroke.rows_lt).2 succeeded

theorem litPoints_stroked (draws : stroke.Draws) (takes : machine.Takes dice address stroke) :
    (machine.stroked dice address stroke).screen.litPoints =
      symmDiff machine.screen.litPoints (machine.marked stroke) := by
  rw [stroked_eq draws takes]
  exact litPoints_afterDraw (machine.facing address stroke) stroke.word _ _ stroke.rows_lt

theorem get_stroked (draws : stroke.Draws) (takes : machine.Takes dice address stroke)
    (marks : machine.Marks stroke point) :
    (machine.stroked dice address stroke).screen.get point.x point.y =
      !machine.screen.get point.x point.y := by
  rw [Bool.eq_iff_iff, ← Screen.mem_litPoints_iff, litPoints_stroked draws takes,
    Finset.mem_symmDiff, Screen.mem_litPoints_iff, mem_marked_iff]
  simp [marks]

theorem flag_stroked_iff (draws : stroke.Draws) (takes : machine.Takes dice address stroke) :
    (machine.stroked dice address stroke).registers.read 0xf = 1 ↔
      ∃ point, machine.Marks stroke point ∧ machine.screen.get point.x point.y = true := by
  rw [stroked_eq draws takes]
  exact met_afterDraw_iff (machine.facing address stroke) stroke.word _ _ stroke.rows_lt

/-! ### What a stroke leaves for the next -/

theorem memory_stroked (draws : stroke.Draws) (takes : machine.Takes dice address stroke) :
    (machine.stroked dice address stroke).memory = machine.memory := by
  rw [stroked_eq draws takes]
  rfl

theorem Takes.after_stroke (otherTakes : machine.Takes dice place other)
    (otherDraws : other.Draws) (takes : machine.Takes dice address stroke)
    (draws : stroke.Draws) : (machine.stroked dice address stroke).Takes next place other := by
  obtain ⟨busy, fetched, reaches⟩ := (takes_iff otherDraws).mp otherTakes
  refine (takes_iff otherDraws).mpr ⟨?_, ?_, reaches⟩
  · rw [stroked_eq draws takes]
    exact busy
  · simp only [Fetches, facing, aimed, memory_stroked draws takes]
    exact fetched

/-- A stroke does not change what a steady one marks. -/
theorem marks_stroked (steady : other.Steady) (draws : stroke.Draws)
    (takes : machine.Takes dice address stroke) :
    (machine.stroked dice address stroke).Marks other point ↔ machine.Marks other point := by
  have sameRegister (register : Nat) (apart : register ≠ 0xf) :
      (machine.stroked dice address stroke).registers.read register =
        machine.registers.read register := by
    rw [stroked_eq draws takes]
    exact machine.registers.read_writeFlag_of_ne _ apart
  have sameCorner : ((machine.stroked dice address stroke).aimed other).corner other.x other.y =
      (machine.aimed other).corner other.x other.y := by
    unfold corner
    rw [Point.mk.injEq]
    exact ⟨congrArg UInt8.toNat (sameRegister other.x steady.x),
      congrArg UInt8.toNat (sameRegister other.y steady.y)⟩
  have sameMemory : ((machine.stroked dice address stroke).aimed other).memory =
      (machine.aimed other).memory := memory_stroked draws takes
  have sameDialect : ((machine.stroked dice address stroke).aimed other).settings.dialect =
      (machine.aimed other).settings.dialect := by
    rw [stroked_eq draws takes]
    rfl
  unfold Marks Covers
  rw [sameCorner, sameMemory, sameDialect]
  rfl

theorem marked_stroked (steady : other.Steady) (draws : stroke.Draws)
    (takes : machine.Takes dice address stroke) :
    (machine.stroked dice address stroke).marked other = machine.marked other := by
  ext point
  rw [mem_marked_iff, mem_marked_iff, marks_stroked steady draws takes]

/-! ### Two strokes -/

theorem screen_stroked_stroked (steady : stroke.Steady)
    (takes : machine.Takes dice address stroke)
    (again : (machine.stroked dice address stroke).Takes next place stroke) :
    ((machine.stroked dice address stroke).stroked next place stroke).screen =
      machine.screen := by
  apply Screen.litPoints_injective
  rw [litPoints_stroked steady.draws again, marked_stroked steady steady.draws takes,
    litPoints_stroked steady.draws takes, symmDiff_symmDiff_cancel_right]

private theorem screen_stroked_comm (steady : stroke.Steady) (otherSteady : other.Steady)
    (takes : machine.Takes dice address stroke) (otherTakes : machine.Takes dice place other)
    (otherLater : (machine.stroked dice address stroke).Takes next place other)
    (later : (machine.stroked dice place other).Takes next address stroke) :
    ((machine.stroked dice address stroke).stroked next place other).screen =
      ((machine.stroked dice place other).stroked next address stroke).screen := by
  apply Screen.litPoints_injective
  rw [litPoints_stroked otherSteady.draws otherLater, litPoints_stroked steady.draws later,
    marked_stroked otherSteady steady.draws takes,
    marked_stroked steady otherSteady.draws otherTakes, litPoints_stroked steady.draws takes,
    litPoints_stroked otherSteady.draws otherTakes, symmDiff_right_comm]

theorem flag_stroked_stroked_iff (steady : stroke.Steady)
    (takes : machine.Takes dice address stroke)
    (again : (machine.stroked dice address stroke).Takes next place stroke) :
    ((machine.stroked dice address stroke).stroked next place stroke).registers.read 0xf = 1 ↔
      ∃ point, machine.Marks stroke point ∧ machine.screen.get point.x point.y = false := by
  rw [flag_stroked_iff steady.draws again]
  refine exists_congr fun point => ?_
  rw [marks_stroked steady steady.draws takes]
  refine and_congr_right fun marks => ?_
  rw [get_stroked steady.draws takes marks, Bool.not_eq_true']

end

/-- A sprite whose corner is not in the flag register is gone when it is drawn a second time,
wherever the second instruction stands. The flag tells of the first draw whether a marked point
was lit, and of the second whether one was dark, so that one of them tells whether anything was
marked. And two such sprites leave the same screen whichever of them is drawn first. -/
theorem strokes_cancel_and_commute (machine : Machine) (dice next : Dice) (address : UInt16)
    (stroke : Stroke) (steady : stroke.Steady) (takes : machine.Takes dice address stroke) :
    let once := machine.stroked dice address stroke
    (∀ place, machine.Takes dice place stroke →
        let twice := once.stroked next place stroke
        once.Takes next place stroke ∧ twice.screen = machine.screen ∧
          (once.registers.read 0xf = 1 ↔
            ∃ point, machine.Marks stroke point ∧ machine.screen.get point.x point.y = true) ∧
          (twice.registers.read 0xf = 1 ↔
            ∃ point, machine.Marks stroke point ∧ machine.screen.get point.x point.y = false) ∧
          (once.registers.read 0xf = 1 ∨ twice.registers.read 0xf = 1 ↔
            ∃ point, machine.Marks stroke point)) ∧
      ∀ place (other : Stroke), other.Steady → machine.Takes dice place other →
        let otherOnce := machine.stroked dice place other
        once.Takes next place other ∧ otherOnce.Takes next address stroke ∧
          (once.stroked next place other).screen =
            (otherOnce.stroked next address stroke).screen := by
  intro once
  constructor
  · intro place takesThere twice
    have again : once.Takes next place stroke :=
      takesThere.after_stroke steady.draws takes steady.draws
    have first := flag_stroked_iff steady.draws takes
    have second := flag_stroked_stroked_iff steady takes again
    refine ⟨again, screen_stroked_stroked steady takes again, first, second, ?_⟩
    rw [first, second, ← exists_or]
    refine exists_congr fun point => ?_
    rw [← and_or_left]
    exact and_iff_left (Bool.eq_false_or_eq_true _)
  · intro place other otherSteady otherTakes otherOnce
    have otherLater : once.Takes next place other :=
      otherTakes.after_stroke otherSteady.draws takes steady.draws
    have later : otherOnce.Takes next address stroke :=
      takes.after_stroke steady.draws otherTakes otherSteady.draws
    exact ⟨otherLater, later,
      screen_stroked_comm steady otherSteady takes otherTakes otherLater later⟩

/-- A machine with two lit points and two drawing instructions in a row. Of the two sprites in
its memory one covers both points and the other covers one. -/
def overlapping : Machine :=
  { standard with
    memory := Memory.zeroed.store 0x200 [0xd0, 0x11, 0xd0, 0x11, 0xc0, 0x80]
    screen := (Screen.blank.toggle ⟨0, 0⟩).toggle ⟨1, 0⟩ }

/-- The screen is the same in either order, but not the flag. -/
theorem overlapping_cancel_and_commute :
    let dice : Dice := { source := fun _ => 0, taken := 0 }
    let wide : Stroke := { word := 0xd011, index := 0x204 }
    let narrow : Stroke := { word := 0xd011, index := 0x205 }
    let once := overlapping.stroked dice 0x200 wide
    let otherOnce := overlapping.stroked dice 0x202 narrow
    wide.Steady ∧ narrow.Steady ∧ overlapping.Takes dice 0x200 wide ∧
      overlapping.Takes dice 0x202 wide ∧ overlapping.Takes dice 0x202 narrow ∧
      (once.stroked dice 0x202 wide).screen = overlapping.screen ∧
      (once.stroked dice 0x202 narrow).screen = (otherOnce.stroked dice 0x200 wide).screen ∧
      (once.stroked dice 0x202 narrow).registers.read 0xf = 0 ∧
      (otherOnce.stroked dice 0x200 wide).registers.read 0xf = 1 := by
  intro dice wide narrow once otherOnce
  have steady : wide.Steady := ⟨by decide, by decide, by decide⟩
  have otherSteady : narrow.Steady := ⟨by decide, by decide, by decide⟩
  have takes : overlapping.Takes dice 0x200 wide := by decide +kernel
  have takesNext : overlapping.Takes dice 0x202 wide := by decide +kernel
  have otherTakes : overlapping.Takes dice 0x202 narrow := by decide +kernel
  obtain ⟨cancel, commute⟩ := strokes_cancel_and_commute overlapping dice dice 0x200 wide steady
    takes
  obtain ⟨-, restored, -⟩ := cancel 0x202 takesNext
  obtain ⟨-, -, sameScreen⟩ := commute 0x202 narrow otherSteady otherTakes
  exact ⟨steady, otherSteady, takes, takesNext, otherTakes, restored, sameScreen,
    by decide +kernel, by decide +kernel⟩

end Machine

end Chip8
