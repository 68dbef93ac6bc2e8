import Chip8.Proofs.CallDiscipline
import Chip8.Proofs.Footprints
import Chip8.Proofs.Invariant
import Chip8.Proofs.Steps

/-!
The two timers along a history. A timer changes in two ways: an instruction of its own sets it to
a register, and a decrement counts it down. So a tone that ends has been set by an instruction
before, one instruction for each, and without such an instruction it is known beforehand which
decrement ends the tone and what the timers come to.
-/

namespace Chip8

inductive Timer
  | delay
  | sound
  deriving DecidableEq, Repr

namespace Timer

def reading : Timer → Machine → UInt8
  | .delay => Machine.delay
  | .sound => Machine.sound

def Sets : Timer → UInt16 → Prop
  | .delay, word => Word.OnRegister word 0xf 0x15
  | .sound, word => Word.OnRegister word 0xf 0x18

instance (timer : Timer) (word : UInt16) : Decidable (timer.Sets word) :=
  match timer with
  | .delay => inferInstanceAs (Decidable (_ ∧ _))
  | .sound => inferInstanceAs (Decidable (_ ∧ _))

def setter : Timer → RegisterOp
  | .delay => .setDelay
  | .sound => .setSound

private theorem exists_setter {word : UInt16} (timer : Timer) (sets : timer.Sets word) :
    ∃ x, Instruction.ofWord? word = some (.register timer.setter x) ∧
      x.toNat = word.toNat / 256 % 16 := by
  have named := Instruction.toNat_registerNumber (Nat.mod_lt (word.toNat / 256) (Nat.succ_pos 15))
  refine ⟨UInt64.ofNat (word.toNat / 256 % 16), ?_, named⟩
  cases timer with
  | delay =>
      exact (Instruction.ofWord?_eq_register_iff 0xf 0x1 0x5 (by decide) (by decide) rfl).mpr
        ⟨sets.1, sets.2, named⟩
  | sound =>
      exact (Instruction.ofWord?_eq_register_iff 0xf 0x1 0x8 (by decide) (by decide) rfl).mpr
        ⟨sets.1, sets.2, named⟩

end Timer

namespace Machine

variable {machine : Machine} {dice : Dice} {operations : List Operation} {timer : Timer}

def sounds (machine : Machine) : Bool := machine.sound != 0

/-! ### One tick -/

private theorem reading_tick (unset : ∀ word, machine.Executes dice word → ¬ timer.Sets word) :
    timer.reading (machine.tick dice).machine = timer.reading machine := by
  rcases machine.tick_passes_or_touches dice with ⟨pc, drawn, fetched, cycle, passed⟩ |
    ⟨word, executes, touches⟩
  · rw [passed]
    cases timer <;> rfl
  · cases timer with
    | delay => exact touches.delay.resolve_right (unset word executes)
    | sound => exact touches.sound.resolve_right (unset word executes)

private theorem reading_of_sets {word : UInt16} (executes : machine.Executes dice word)
    (sets : timer.Sets word) :
    timer.reading (machine.tick dice).machine =
      machine.registers.read (word.toNat / 256 % 16) := by
  obtain ⟨instruction, after, decoded, ran, ticked⟩ := executes.exists_ran
  obtain ⟨x, setter, named⟩ := timer.exists_setter sets
  obtain rfl := Option.some.inj (decoded.symm.trans setter)
  rw [ticked, ← named]
  cases timer <;> cases ran <;> rfl

end Machine

/-! ### One step -/

def saysYes : Except Fault Answer → Bool
  | .ok (.yesNo value) => value
  | _ => false

namespace Step

/-- The step is a timer decrement that ends a tone. -/
def endsTone (step : Step) : Bool :=
  decide (step.operation = .decrementTimers) && saysYes step.outcome.result

/-- The step executes the instruction that sets the sound timer, and not to zero. -/
def setsTone (step : Step) : Bool :=
  step.executes?.any fun word =>
    decide (Timer.sound.Sets word) && step.machine.registers.read (word.toNat / 256 % 16) != 0

theorem endsTone_iff {step : Step} :
    step.endsTone = true ↔ step.operation = .decrementTimers ∧ step.machine.sound = 1 := by
  rcases step with ⟨operation, machine, dice⟩
  rw [endsTone, Bool.and_eq_true, decide_eq_true_iff]
  refine and_congr_right fun decrements => ?_
  simp only at decrements
  subst decrements
  exact beq_iff_eq

/-- The ways in which a timer comes through a step. -/
inductive Moves (timer : Timer) (step : Step) : Prop
  | kept (other : step.operation ≠ .decrementTimers)
      (same : timer.reading step.outcome.machine = timer.reading step.machine)
  | set (word : UInt16) (executed : step.executes? = some word) (sets : timer.Sets word)
      (read : timer.reading step.outcome.machine =
        step.machine.registers.read (word.toNat / 256 % 16))
  | counted (decrements : step.operation = .decrementTimers)
      (down : timer.reading step.outcome.machine =
        Machine.countDown (timer.reading step.machine))

private theorem moves_tick (timer : Timer) (machine : Machine) (dice : Dice) :
    Moves timer ⟨.tick, machine, dice⟩ := by
  by_cases setting : ∃ word, machine.Executes dice word ∧ timer.Sets word
  · obtain ⟨word, executes, sets⟩ := setting
    exact .set word (executes?_eq_some_iff.mpr ⟨rfl, executes⟩) sets
      (Machine.reading_of_sets executes sets)
  · exact .kept nofun (Machine.reading_tick fun word executes sets =>
      setting ⟨word, executes, sets⟩)

theorem moves {step : Step} (single : ∀ count, step.operation ≠ .multistep count)
    (kept : step.operation.keepsProgram = true) (timer : Timer) : Moves timer step := by
  rcases step with ⟨operation, machine, dice⟩
  cases operation with
  | load program => cases kept
  | reset => cases kept
  | multistep count => exact absurd rfl (single count)
  | tick => exact moves_tick timer machine dice
  | changeKey key pressed =>
      obtain ⟨keypad, registers, state, changed⟩ := machine.exists_changeKey key pressed
      refine .kept nofun ?_
      change timer.reading (machine.changeKey key pressed).machine = timer.reading machine
      rw [changed]
      cases timer <;> rfl
  | decrementTimers => exact .counted rfl (by cases timer <;> rfl)
  | setRegister register value =>
      obtain ⟨registers, changed⟩ := machine.exists_setRegister register value
      refine .kept nofun ?_
      change timer.reading (machine.setRegister register value).machine = timer.reading machine
      rw [changed]
      cases timer <;> rfl
  | choose settings => exact .kept nofun (by cases timer <;> rfl)

theorem setsTone_of_decrements {step : Step} (decrements : step.operation = .decrementTimers) :
    step.setsTone = false := by
  rw [setsTone, executes?, decrements]
  rfl

theorem endsTone_of_other {step : Step} (other : step.operation ≠ .decrementTimers) :
    step.endsTone = false := by
  rw [endsTone, decide_eq_false other, Bool.false_and]

/-- Every tone that ends was sounding, and only the instruction makes one sound. -/
theorem balance {step : Step} (moves : Moves .sound step) :
    step.endsTone.toNat + step.outcome.machine.sounds.toNat ≤
      step.setsTone.toNat + step.machine.sounds.toNat := by
  cases moves with
  | kept other same =>
      have sounds : step.outcome.machine.sounds = step.machine.sounds :=
        congrArg (· != (0 : UInt8)) same
      rw [endsTone_of_other other, sounds]
      exact Nat.add_le_add_right (Nat.zero_le _) _
  | set word executed sets read =>
      have other : step.operation ≠ .decrementTimers := by
        rw [(executes?_eq_some_iff.mp executed).1]
        nofun
      have sounds : step.outcome.machine.sounds = step.setsTone := by
        rw [setsTone, executed, Option.any_some, decide_eq_true sets, Bool.true_and]
        exact congrArg (· != (0 : UInt8)) read
      rw [endsTone_of_other other, sounds, Bool.toNat_false, Nat.zero_add]
      exact Nat.le_add_right _ _
  | counted decrements down =>
      have sounds : step.outcome.machine.sounds = (Machine.countDown step.machine.sound != 0) :=
        congrArg (· != (0 : UInt8)) down
      rw [setsTone_of_decrements decrements, sounds, Machine.sounds]
      cases ends : step.endsTone with
      | true =>
          rw [(endsTone_iff.mp ends).2]
          decide
      | false =>
          by_cases silent : step.machine.sound = 0
          · rw [silent]
            decide
          · rw [bne_iff_ne.mpr silent]
            exact Nat.add_le_add_left (Bool.toNat_le _) _

end Step

/-! ### A whole history -/

/-- The results of the timer decrements of a history, in order. -/
def timerAnswers (operations : List Operation) (results : List (Except Fault Answer)) :
    List (Except Fault Answer) :=
  ((operations.zip results).filter (·.1 = .decrementTimers)).map Prod.snd

/-- The answers of as many timer decrements when nothing sets the sound timer between them: yes
from the one that takes the timer to zero, and from no other. -/
def Timer.answersFrom (sound : UInt8) (decrements : Nat) : List (Except Fault Answer) :=
  (List.range decrements).map fun earlier => .ok (.yesNo (earlier + 1 == sound.toNat))

private theorem Timer.answersFrom_succ (sound : UInt8) (decrements : Nat) :
    answersFrom sound (decrements + 1) =
      .ok (.yesNo (sound == 1)) :: answersFrom (Machine.countDown sound) decrements := by
  have first : (0 + 1 == sound.toNat) = (sound == 1) := by
    rw [Bool.eq_iff_iff, beq_iff_eq, beq_iff_eq, ← UInt8.toNat_inj]
    exact eq_comm
  have later (earlier : Nat) :
      (earlier + 1 + 1 == sound.toNat) = (earlier + 1 == (Machine.countDown sound).toNat) := by
    rw [Bool.eq_iff_iff, beq_iff_eq, beq_iff_eq, Machine.toNat_countDown]
    omega
  rw [answersFrom, List.range_succ_eq_map, List.map_cons, List.map_map, first, answersFrom]
  simp only [Function.comp_def, later]

namespace Machine

variable {machine : Machine} {dice : Dice} {operations : List Operation}

/-! ### The steps that decrement the timers -/

def decrements (machine : Machine) (dice : Dice) (operations : List Operation) : List Step :=
  (machine.steps dice operations).filter (·.operation = .decrementTimers)

theorem decrements_append (machine : Machine) (dice : Dice) (earlier later : List Operation) :
    machine.decrements dice (earlier ++ later) =
      machine.decrements dice earlier ++
        (machine.run dice earlier).machine.decrements (machine.run dice earlier).dice later := by
  rw [decrements, steps_append, List.filter_append]
  rfl

theorem length_decrements (machine : Machine) (dice : Dice) (operations : List Operation) :
    (machine.decrements dice operations).length = operations.count .decrementTimers := by
  rw [decrements, ← List.countP_eq_length_filter, List.count]
  conv => rhs; rw [← operations_steps machine dice operations, List.countP_map]
  rfl

theorem timerAnswers_run (machine : Machine) (dice : Dice) (operations : List Operation) :
    timerAnswers operations (machine.run dice operations).results =
      (machine.decrements dice operations).map fun step => step.outcome.result := by
  have paired : operations.zip (machine.run dice operations).results =
      (machine.steps dice operations).map fun step => (step.operation, step.outcome.result) :=
    calc operations.zip (machine.run dice operations).results
        = ((machine.steps dice operations).map Step.operation).zip
            ((machine.steps dice operations).map fun step => step.outcome.result) := by
          rw [operations_steps, results_run]
      _ = _ := List.zip_map' ..
  rw [timerAnswers, paired, List.filter_map, List.map_map]
  rfl

theorem decrements_unroll (machine : Machine) (dice : Dice) (operations : List Operation) :
    machine.decrements dice (machine.unroll dice operations) =
      machine.decrements dice operations := by
  induction operations generalizing machine dice with
  | nil => rfl
  | cons operation rest ih =>
      have elements := run_elements operation machine dice
      simp only [History.remains, Outcome.remains, Prod.mk.injEq] at elements
      have first : machine.decrements dice (operation.elements machine dice) =
          machine.decrements dice [operation] := by
        cases operation with
        | multistep count =>
            refine List.eq_nil_of_length_eq_zero ?_
            rw [length_decrements, Operation.elements, List.count_eq_zero]
            intro present
            cases List.eq_of_mem_replicate present
        | _ => rfl
      rw [unroll, decrements_append, elements.1, elements.2.1, ih, first]
      exact (machine.decrements_append dice [operation] rest).symm

/-! ### Tones between two steps -/

private theorem countP_cons_toNat {α : Type} (holds : α → Bool) (first : α) (rest : List α) :
    (first :: rest).countP holds = (holds first).toNat + rest.countP holds := by
  rw [List.countP_cons, Nat.add_comm]
  cases holds first <;> rfl

theorem endings_le_settings (moves : ∀ step ∈ machine.steps dice operations, step.Moves .sound) :
    (machine.steps dice operations).countP Step.endsTone +
        (machine.run dice operations).machine.sounds.toNat ≤
      (machine.steps dice operations).countP Step.setsTone + machine.sounds.toNat := by
  induction operations generalizing machine dice with
  | nil => exact Nat.le_refl _
  | cons operation rest ih =>
      obtain ⟨first, others⟩ := List.forall_mem_cons.mp moves
      have here := Step.balance first
      have later := ih others
      have final : (machine.run dice (operation :: rest)).machine =
          ((operation.apply machine dice).machine.run (operation.apply machine dice).dice
            rest).machine := rfl
      rw [steps, countP_cons_toNat, countP_cons_toNat, final]
      simp only [Step.outcome] at here later ⊢
      omega

theorem exists_setsTone_between {earlier between later : List Step} {first second : Step}
    (moves : ∀ step ∈ machine.steps dice operations, step.Moves .sound)
    (split : machine.steps dice operations =
      earlier ++ first :: (between ++ second :: later))
    (firstEnds : first.endsTone = true) (secondEnds : second.endsTone = true) :
    ∃ step ∈ between, step.setsTone = true := by
  have whole : machine.steps dice operations =
      earlier ++ ((first :: (between ++ [second])) ++ later) := by
    rw [split, List.cons_append, List.append_assoc, List.singleton_append]
  obtain ⟨reached, rolled, same⟩ := exists_steps_eq whole
  have along : ∀ step ∈ first :: (between ++ [second]), step.Moves .sound := by
    intro step member
    refine moves step ?_
    rw [whole]
    exact List.mem_append_right _ (List.mem_append_left _ member)
  rw [← same] at along
  have balance := endings_le_settings along
  have atMostOne := Bool.toNat_le reached.sounds
  have firstUnset := Step.setsTone_of_decrements (Step.endsTone_iff.mp firstEnds).1
  have secondUnset := Step.setsTone_of_decrements (Step.endsTone_iff.mp secondEnds).1
  simp only [same, List.countP_cons, List.countP_append, List.countP_nil, firstEnds, secondEnds,
    firstUnset, secondUnset, if_true, Bool.false_eq_true, if_false] at balance
  refine List.countP_pos_iff.mp ?_
  omega

/-! ### Timers that no instruction sets -/

private theorem reading_steps {timer : Timer}
    (moves : ∀ step ∈ machine.steps dice operations, step.Moves timer)
    (unset : ∀ step ∈ machine.steps dice operations, ∀ word,
      step.executes? = some word → ¬ timer.Sets word) :
    (timer.reading (machine.run dice operations).machine).toNat =
      (timer.reading machine).toNat - operations.count .decrementTimers := by
  induction operations generalizing machine dice with
  | nil => rfl
  | cons operation rest ih =>
      obtain ⟨first, others⟩ := List.forall_mem_cons.mp moves
      obtain ⟨firstUnset, othersUnset⟩ := List.forall_mem_cons.mp unset
      refine (ih others othersUnset).trans ?_
      cases first with
      | kept other same =>
          rw [same, List.count_cons_of_ne other]
      | set word executed sets read => exact absurd sets (firstUnset word executed)
      | counted decrements down =>
          simp only at decrements
          subst decrements
          rw [down, toNat_countDown, List.count_cons_self]
          exact Nat.sub_sub .. |>.trans (by rw [Nat.add_comm])

private theorem answers_steps (moves : ∀ step ∈ machine.steps dice operations, step.Moves .sound)
    (unset : ∀ step ∈ machine.steps dice operations, ∀ word,
      step.executes? = some word → ¬ Timer.sound.Sets word) :
    (machine.decrements dice operations).map (fun step => step.outcome.result) =
      Timer.answersFrom machine.sound (operations.count .decrementTimers) := by
  induction operations generalizing machine dice with
  | nil => rfl
  | cons operation rest ih =>
      obtain ⟨first, others⟩ := List.forall_mem_cons.mp moves
      obtain ⟨firstUnset, othersUnset⟩ := List.forall_mem_cons.mp unset
      have later := ih others othersUnset
      cases first with
      | kept other same =>
          have skipped : machine.decrements dice (operation :: rest) =
              (operation.apply machine dice).machine.decrements
                (operation.apply machine dice).dice rest :=
            List.filter_cons_of_neg (by simpa using other)
          have sound : (operation.apply machine dice).machine.sound = machine.sound := same
          rw [skipped, List.count_cons_of_ne other, ← sound]
          exact later
      | set word executed sets read => exact absurd sets (firstUnset word executed)
      | counted decrements down =>
          simp only at decrements
          subst decrements
          rw [List.count_cons_self, Timer.answersFrom_succ]
          exact congrArg (_ :: ·) later

/-! ### A whole history -/

/-- The machine has just been reset, or a program has just been loaded. -/
def JustBegun (machine : Machine) : Prop :=
  (∃ before, machine = reset before) ∨
    ∃ before program, (load before program).result = .ok () ∧
      machine = (load before program).machine

private theorem sound_of_loaded {program : List UInt8} :
    (machine.load program).result = .ok () → (machine.load program).machine.sound = 0 := by
  unfold load
  split
  · nofun
  · intro loaded
    dsimp only
    repeat' split
    all_goals rfl

private theorem sounds_of_justBegun (begun : machine.JustBegun) : machine.sounds = false := by
  rcases begun with ⟨before, same⟩ | ⟨before, program, loaded, same⟩
  · rw [same]
    rfl
  · rw [same, sounds, sound_of_loaded loaded]
    rfl

private theorem moves_of_mem (kept : ∀ operation ∈ operations, operation.keepsProgram = true)
    (timer : Timer) {step : Step} (member : step ∈ machine.singleSteps dice operations) :
    step.Moves timer :=
  Step.moves (single_of_mem member)
    (holds_of_mem (Operation.keepsProgram · = true) rfl kept member) timer

private theorem countP_timerAnswers (machine : Machine) (dice : Dice)
    (operations : List Operation) :
    (timerAnswers operations (machine.run dice operations).results).countP saysYes =
      (machine.singleSteps dice operations).countP Step.endsTone := by
  rw [timerAnswers_run, ← decrements_unroll, decrements, List.countP_map, List.countP_filter]
  refine List.countP_congr fun step member => ?_
  rw [Step.endsTone, Function.comp_apply, Bool.and_comm]

theorem not_sets_of_executed {timer : Timer}
    (unset : ∀ word ∈ machine.executed dice operations, ¬ timer.Sets word) :
    ∀ step ∈ machine.singleSteps dice operations, ∀ word,
      step.executes? = some word → ¬ timer.Sets word :=
  fun step member word executed => unset word (mem_executed_iff.mpr ⟨step, member, executed⟩)

/-- From a machine that has just begun, no more decrements end a tone than instructions have set
one, and between any two that do an instruction has set the timer to more than zero. As long as
none sets it, what the decrements answer is known from where it stands, and so is where each of
the timers ends. -/
theorem tones_are_earned (machine : Machine) (dice : Dice)
    (kept : ∀ operation ∈ operations, operation.keepsProgram = true) :
    let steps := machine.singleSteps dice operations
    let after := machine.run dice operations
    let answers := timerAnswers operations after.results
    let decrements := operations.count .decrementTimers
    (machine.JustBegun → answers.countP saysYes ≤ steps.countP Step.setsTone) ∧
      (∀ earlier first between second later,
        steps = earlier ++ first :: (between ++ second :: later) →
          first.endsTone = true → second.endsTone = true →
            ∃ step ∈ between, step.setsTone = true) ∧
      ((∀ word ∈ machine.executed dice operations, ¬ Timer.sound.Sets word) →
        answers = Timer.answersFrom machine.sound decrements) ∧
      ∀ timer : Timer, (∀ word ∈ machine.executed dice operations, ¬ timer.Sets word) →
        (timer.reading after.machine).toNat = (timer.reading machine).toNat - decrements := by
  intro steps after answers decrements
  have moves (timer : Timer) : ∀ step ∈ steps, step.Moves timer :=
    fun step member => moves_of_mem kept timer member
  have final : (machine.run dice (machine.unroll dice operations)).machine = after.machine :=
    (machine.remains_unroll dice operations).1
  have same : (machine.unroll dice operations).count .decrementTimers = decrements := by
    rw [← machine.length_decrements dice, decrements_unroll, length_decrements]
  refine ⟨fun begun => ?_, fun earlier first between second later split firstEnds secondEnds => ?_,
    fun unset => ?_, fun timer unset => ?_⟩
  · have balance := endings_le_settings (moves .sound)
    rw [sounds_of_justBegun begun] at balance
    rw [countP_timerAnswers]
    exact Nat.le_trans (Nat.le_add_right _ _) balance
  · exact exists_setsTone_between (moves .sound) split firstEnds secondEnds
  · have known := answers_steps (moves .sound) (not_sets_of_executed unset)
    rw [decrements_unroll, ← timerAnswers_run, same] at known
    exact known
  · have known := reading_steps (moves timer) (not_sets_of_executed unset)
    rw [final, same] at known
    exact known

def tolling : List UInt8 := [0x61, 0x02, 0xf1, 0x18, 0x12, 0x02]

/-- Two tones for two settings, and then one tone that no instruction disturbs. -/
theorem tolling_earns_its_tones :
    let dice : Dice := { source := fun _ => 0, taken := 0 }
    let operations : List Operation :=
      [.multistep 2, .decrementTimers, .changeKey 16 true, .decrementTimers, .multistep 2,
        .decrementTimers, .tick, .decrementTimers]
    let stretch : List Operation :=
      [.decrementTimers, .tick, .decrementTimers, .setRegister 1 9, .decrementTimers]
    let begun := (standard.load tolling).machine
    let sounding := (begun.run dice [.multistep 2]).machine
    let answer (value : Bool) : Except Fault Answer := .ok (.yesNo value)
    (timerAnswers operations (begun.run dice operations).results).countP saysYes = 2 ∧
      2 ≤ (begun.singleSteps dice operations).countP Step.setsTone ∧
      sounding.executed dice stretch = [0x1202] ∧
      timerAnswers stretch (sounding.run dice stretch).results = [false, true, false].map answer ∧
      (sounding.run dice stretch).machine.sound.toNat = 0 := by
  intro dice operations stretch begun sounding answer
  have loads : (standard.load tolling).result = .ok () :=
    congrArg Reply.result (load_of_fitting (by decide) (by decide))
  have justBegun : begun.JustBegun := .inr ⟨standard, tolling, loads, rfl⟩
  have twice : (timerAnswers operations (begun.run dice operations).results).countP saysYes =
      2 := by
    decide +kernel
  have words : sounding.executed dice stretch = [0x1202] := by decide +kernel
  have sound : sounding.sound = 2 := by decide +kernel
  have unset : ∀ word ∈ sounding.executed dice stretch, ¬ Timer.sound.Sets word := by
    rw [words]
    exact List.forall_mem_singleton.mpr (by decide)
  have kept : (∀ operation ∈ operations, operation.keepsProgram = true) ∧
      ∀ operation ∈ stretch, operation.keepsProgram = true :=
    ⟨List.all_eq_true.mp rfl, List.all_eq_true.mp rfl⟩
  obtain ⟨earned, -⟩ := tones_are_earned begun dice kept.1
  obtain ⟨-, -, known, counted⟩ := tones_are_earned sounding dice kept.2
  refine ⟨twice, twice ▸ earned justBegun, words, ?_, ?_⟩
  · rw [known unset, sound]
    rfl
  · have final := counted .sound unset
    rw [Timer.reading, sound] at final
    exact final

end Machine

end Chip8
