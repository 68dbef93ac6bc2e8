import Chip8.Proofs.Histories
import Chip8.Proofs.Ticking

/-!
A batch of ticks is nothing but its ticks, up to the first one that fails. So it may be cut
into smaller batches anywhere, and the cycle counter tells how many of its ticks met an
instruction.
-/

namespace Chip8

namespace Outcome

/-- Continue a run from where it stands, unless it failed. -/
def andThen (outcome : Outcome Unit) (next : Machine → Dice → Outcome Unit) : Outcome Unit :=
  if outcome.failed then outcome else outcome.behind (next outcome.machine outcome.dice)

private theorem andThen_assoc (outcome : Outcome Unit)
    (second third : Machine → Dice → Outcome Unit) :
    (outcome.andThen second).andThen third =
      outcome.andThen fun machine dice => (second machine dice).andThen third := by
  by_cases failed : outcome.failed = true
  · simp only [andThen, if_pos failed]
  · have continued (next : Machine → Dice → Outcome Unit) :
        outcome.andThen next = outcome.behind (next outcome.machine outcome.dice) :=
      if_neg failed
    rw [continued, continued]
    generalize second outcome.machine outcome.dice = later
    have sameEnd : (outcome.behind later).failed = later.failed := rfl
    rw [andThen, andThen, sameEnd]
    split
    · rfl
    · exact (behind_assoc outcome later _).symm

theorem start_andThen (machine : Machine) (dice : Dice)
    (next : Machine → Dice → Outcome Unit) :
    (machine.start dice).andThen next = next machine dice :=
  Machine.start_behind machine dice (next machine dice)

end Outcome

namespace Machine

/-! ### A batch and its ticks -/

/-- Tick a number of times, but no more after a tick that fails. -/
def tickTimes (machine : Machine) (dice : Dice) : Nat → Outcome Unit
  | 0 => machine.start dice
  | count + 1 => (machine.tick dice).andThen fun next rolls => next.tickTimes rolls count

theorem tick_of_idle {machine : Machine} (still : machine.isIdle = true) (dice : Dice) :
    machine.tick dice = machine.start dice :=
  if_pos still

theorem isIdle_of_awaiting {machine : Machine} (awaiting : machine.isAwaitingKey = true) :
    machine.isIdle = true := by
  rw [isIdle, awaiting, Bool.or_true]

theorem multistep_eq_tickTimes (machine : Machine) (dice : Dice) (count : Nat) :
    machine.multistep dice count = machine.tickTimes dice count := by
  induction count generalizing machine dice with
  | zero => rfl
  | succ count ih =>
      cases active : machine.isAwaitingKey with
      | true =>
          have still := isIdle_of_awaiting active
          have rest := (ih machine dice).symm
          rw [multistep_of_awaiting active] at rest
          rw [multistep_of_awaiting active, tickTimes, tick_of_idle still,
            Outcome.start_andThen, rest]
      | false =>
          rw [multistep_succ active, ih]
          rfl

private theorem tickTimes_add (machine : Machine) (dice : Dice) (first second : Nat) :
    machine.tickTimes dice (first + second) =
      (machine.tickTimes dice first).andThen fun next rolls => next.tickTimes rolls second := by
  induction first generalizing machine dice with
  | zero => rw [Nat.zero_add, tickTimes, Outcome.start_andThen]
  | succ first ih =>
      rw [Nat.succ_add, tickTimes, tickTimes, Outcome.andThen_assoc]
      simp only [ih]

/-! ### Counting cycles -/

def upcoming? (machine : Machine) : Option Instruction :=
  if machine.isIdle then none
  else (machine.memory.word? machine.pc.toNat).bind Instruction.ofWord?

theorem upcoming?_eq_some_iff {machine : Machine} {instruction : Instruction} :
    machine.upcoming? = some instruction ↔
      machine.isIdle = false ∧
        ∃ word, machine.Fetches word ∧ Instruction.ofWord? word = some instruction := by
  unfold upcoming?
  cases machine.isIdle with
  | true => simp
  | false =>
      simp only [Bool.false_eq_true, if_false, Option.bind_eq_some_iff, true_and]
      exact exists_congr fun word => and_congr_left fun _ => fetches_iff.symm

theorem cycle_tick (machine : Machine) (dice : Dice) :
    (machine.tick dice).machine.cycle =
      machine.cycle + if machine.upcoming?.isSome then 1 else 0 := by
  have ticks := ticks_tick machine dice
  generalize machine.tick dice = outcome at ticks
  cases ticks with
  | idle still => simp [upcoming?, still, start]
  | astray outside busy => simp [upcoming?, busy, word?_pc_eq_none_iff.mpr outside]
  | unknown word busy fetched undecoded =>
      simp [upcoming?, busy, fetches_iff.mp fetched, undecoded, afterFetch]
  | refused word instruction fault busy fetched decoded refused =>
      have taken := upcoming?_eq_some_iff.mpr ⟨busy, word, fetched, decoded⟩
      rw [taken]
      rfl
  | executed word instruction after busy fetched decoded ran =>
      have taken := upcoming?_eq_some_iff.mpr ⟨busy, word, fetched, decoded⟩
      have kept : after.cycle = (machine.poised word).cycle :=
        congrArg Setting.cycle (effect_of_execute ran).setting
      rw [taken]
      exact kept

/-- The machines that the ticks of `tickTimes` begin from. -/
def tickStarts (machine : Machine) (dice : Dice) : Nat → List Machine
  | 0 => []
  | count + 1 =>
      let first := machine.tick dice
      machine :: if first.failed then [] else first.machine.tickStarts first.dice count

private theorem length_tickStarts_le (machine : Machine) (dice : Dice) (count : Nat) :
    (machine.tickStarts dice count).length ≤ count := by
  induction count generalizing machine dice with
  | zero => exact Nat.le_refl 0
  | succ count ih =>
      rw [tickStarts, List.length_cons]
      split
      · exact Nat.succ_le_succ (Nat.zero_le count)
      · exact Nat.succ_le_succ (ih _ _)

theorem cycle_tickTimes (machine : Machine) (dice : Dice) (count : Nat) :
    (machine.tickTimes dice count).machine.cycle =
      machine.cycle +
        (machine.tickStarts dice count).countP fun begun => begun.upcoming?.isSome := by
  induction count generalizing machine dice with
  | zero => rfl
  | succ count ih =>
      have ticked := cycle_tick machine dice
      rw [tickTimes, tickStarts, Outcome.andThen, List.countP_cons]
      split
      · rw [ticked, List.countP_nil, Nat.zero_add]
      · have rest := ih (machine.tick dice).machine (machine.tick dice).dice
        rw [ticked] at rest
        exact rest.trans (by omega)

private theorem cycle_multistep_le (machine : Machine) (dice : Dice) (count : Nat) :
    (machine.multistep dice count).machine.cycle ≤ machine.cycle + count := by
  have counted := List.countP_le_length (p := fun begun : Machine => begun.upcoming?.isSome)
    (l := machine.tickStarts dice count)
  have starts := length_tickStarts_le machine dice count
  rw [multistep_eq_tickTimes, cycle_tickTimes]
  omega

theorem settings_tick (machine : Machine) (dice : Dice) :
    (machine.tick dice).machine.settings = machine.settings := by
  have ticks := ticks_tick machine dice
  generalize machine.tick dice = outcome at ticks
  cases ticks with
  | idle still => rfl
  | astray outside busy => rfl
  | unknown word busy fetched undecoded => rfl
  | refused word instruction fault busy fetched decoded refused => rfl
  | executed word instruction after busy fetched decoded ran =>
      exact congrArg Setting.settings (effect_of_execute ran).setting

theorem exists_executes {machine : Machine} {dice : Dice} (busy : machine.isIdle = false)
    (succeeded : (machine.tick dice).result = .ok ()) :
    ∃ word, machine.Executes dice word := by
  have ticks := ticks_tick machine dice
  generalize ticked : machine.tick dice = outcome at ticks succeeded
  cases ticks with
  | idle still => simp [busy] at still
  | astray outside busy => cases succeeded
  | unknown word busy fetched undecoded => cases succeeded
  | refused word instruction fault busy fetched decoded refused => cases succeeded
  | executed word instruction after busy fetched decoded ran =>
      exact ⟨word, busy, fetched, by rw [ticked]⟩

theorem cycle_of_executes {machine : Machine} {dice : Dice} {word : UInt16}
    (executes : machine.Executes dice word) :
    (machine.tick dice).machine.cycle = machine.cycle + 1 := by
  obtain ⟨instruction, after, decoded, -, -⟩ := executes.exists_ran
  obtain ⟨busy, fetched, -⟩ := executes
  have taken := upcoming?_eq_some_iff.mpr ⟨busy, word, fetched, decoded⟩
  rw [cycle_tick, taken]
  rfl

theorem isIdle_eq_false_iff {machine : Machine} :
    machine.isIdle = false ↔
      machine.settings.paused = false ∧ machine.isAwaitingKey = false :=
  Bool.or_eq_false_iff

/-- A batch that neither fails nor ends at a wait has executed as many instructions as it
has ticks. -/
theorem cycle_of_uninterrupted {machine : Machine} {dice : Dice} {count : Nat}
    (busy : machine.isIdle = false)
    (succeeded : (machine.multistep dice count).result = .ok ())
    (active : (machine.multistep dice count).machine.isAwaitingKey = false) :
    (machine.multistep dice count).machine.cycle = machine.cycle + count := by
  induction count generalizing machine dice with
  | zero => rfl
  | succ count ih =>
      obtain ⟨unpaused, running⟩ := isIdle_eq_false_iff.mp busy
      rw [multistep_succ running] at succeeded active ⊢
      split at succeeded
      · rename_i failed
        rw [failed_eq_false_iff.mpr succeeded] at failed
        cases failed
      · rename_i passed
        rw [if_neg passed] at active ⊢
        have ticked : (machine.tick dice).result = .ok () :=
          failed_eq_false_iff.mp (Bool.eq_false_iff.mpr passed)
        obtain ⟨word, executes⟩ := exists_executes busy ticked
        have counted := cycle_of_executes executes
        have running : (machine.tick dice).machine.isAwaitingKey = false := by
          cases waits : (machine.tick dice).machine.isAwaitingKey with
          | false => rfl
          | true =>
              have ended : (machine.tick dice).machine.isAwaitingKey = false := by
                simpa only [Outcome.behind, multistep_of_awaiting waits, start] using active
              rw [waits] at ended
              cases ended
        have stillUnpaused : (machine.tick dice).machine.settings.paused = false := by
          rw [settings_tick]
          exact unpaused
        have rest := ih (isIdle_eq_false_iff.mpr ⟨stillUnpaused, running⟩) succeeded active
        rw [counted] at rest
        exact rest.trans (by omega)

/-- A batch does what its ticks do, may be cut in two anywhere, and counts a cycle for each
of its ticks that met an instruction: for every one, if nothing held it up. -/
theorem multistep_is_its_ticks (machine : Machine) (dice : Dice) (earlier later : Nat) :
    let batch := machine.multistep dice later
    batch = machine.tickTimes dice later ∧
      machine.multistep dice (earlier + later) =
        (machine.multistep dice earlier).andThen (fun next rolls => next.multistep rolls later) ∧
      batch.machine.cycle =
        machine.cycle +
          (machine.tickStarts dice later).countP (fun begun => begun.upcoming?.isSome) ∧
      batch.machine.cycle ≤ machine.cycle + later ∧
      (machine.isIdle = false → batch.result = .ok () →
        batch.machine.isAwaitingKey = false → batch.machine.cycle = machine.cycle + later) := by
  refine ⟨multistep_eq_tickTimes machine dice later, ?_, ?_,
    cycle_multistep_le machine dice later, cycle_of_uninterrupted⟩
  · simp only [multistep_eq_tickTimes]
    exact tickTimes_add machine dice earlier later
  · rw [multistep_eq_tickTimes]
    exact cycle_tickTimes machine dice later

def counting : Machine :=
  { standard with memory := Memory.zeroed.store 0x200 [0x70, 0x01, 0x12, 0x00] }

theorem counting_grows_by_batch :
    let dice : Dice := { source := fun _ => 0, taken := 0 }
    let batch := counting.multistep dice 5
    counting.isIdle = false ∧ batch.result = .ok () ∧ batch.machine.isAwaitingKey = false ∧
      counting.multistep dice (2 + 5) =
        (counting.multistep dice 2).andThen (fun next rolls => next.multistep rolls 5) ∧
      batch.machine.cycle = counting.cycle + 5 := by
  intro dice batch
  have busy : counting.isIdle = false := by decide +kernel
  have succeeded : batch.result = .ok () := failed_eq_false_iff.mp (by decide +kernel)
  have active : batch.machine.isAwaitingKey = false := by decide +kernel
  obtain ⟨-, cut, -, -, full⟩ := multistep_is_its_ticks counting dice 2 5
  exact ⟨busy, succeeded, active, cut, full busy succeeded active⟩

end Machine

end Chip8
