import Chip8.Operation

/-!
Histories of a machine. A batch of ticks does what its ticks do one after another, so a
history with batches unrolls into one that leaves the same and has none. A machine is
reachable if operations of a host lead to it from a machine that has just been made.
-/

namespace Chip8

/-! ### Batches of ticks -/

namespace Outcome

theorem multistep_of_stopped {outcome : Outcome Unit} (stopped : outcome.isStopped = true)
    (count : Nat) : outcome.multistep count = outcome := by
  cases count with
  | zero => rfl
  | succ count => rw [multistep, if_pos stopped]

theorem isStopped_of_failed {outcome : Outcome Unit} (failed : outcome.failed = true) :
    outcome.isStopped = true := by
  rw [isStopped, failed, Bool.true_or]

/-- The outcome that continues another one and prints after it. -/
def behind (earlier later : Outcome Unit) : Outcome Unit :=
  { later with trace := later.trace ++ earlier.trace }

theorem behind_assoc (first second third : Outcome Unit) :
    first.behind (second.behind third) = (first.behind second).behind third := by
  simp only [behind, List.append_assoc]

private theorem tick_eq_behind (outcome : Outcome Unit) :
    outcome.tick = outcome.behind (outcome.machine.tick outcome.dice) :=
  rfl

theorem multistep_behind (earlier later : Outcome Unit) (count : Nat) :
    (earlier.behind later).multistep count = earlier.behind (later.multistep count) := by
  induction count generalizing later with
  | zero => rfl
  | succ count ih =>
      have sameStop : (earlier.behind later).isStopped = later.isStopped := rfl
      rw [multistep, multistep, sameStop]
      split
      · rfl
      · rw [← ih later.tick, tick_eq_behind later, behind_assoc]
        rfl

end Outcome

namespace Machine

theorem start_behind (machine : Machine) (dice : Dice) (later : Outcome Unit) :
    (machine.start dice).behind later = later := by
  simp only [Outcome.behind, start, List.append_nil]

theorem multistep_of_awaiting {machine : Machine} (awaiting : machine.isAwaitingKey = true)
    (dice : Dice) (count : Nat) : machine.multistep dice count = machine.start dice := by
  have stopped : (machine.start dice).isStopped = true := awaiting
  exact Outcome.multistep_of_stopped stopped count

theorem multistep_succ {machine : Machine} (active : machine.isAwaitingKey = false)
    (dice : Dice) (count : Nat) :
    machine.multistep dice (count + 1) =
      if (machine.tick dice).failed then machine.tick dice
      else (machine.tick dice).behind
        ((machine.tick dice).machine.multistep (machine.tick dice).dice count) := by
  have goesOn : (machine.start dice).isStopped = false := active
  have begun : (machine.start dice).tick = machine.tick dice := start_behind machine dice _
  have unfolded : machine.multistep dice (count + 1) = (machine.tick dice).multistep count := by
    rw [multistep, Outcome.multistep, goesOn, begun]
    rfl
  rw [unfolded]
  generalize machine.tick dice = first
  split
  · rename_i failed
    exact Outcome.multistep_of_stopped (Outcome.isStopped_of_failed failed) count
  · rename_i succeeded
    have fresh : first.behind (first.machine.start first.dice) = first := by
      rcases first with ⟨⟨result, machine⟩, dice, trace⟩
      cases result with
      | error fault => exact absurd rfl succeeded
      | ok value => rfl
    rw [multistep, ← Outcome.multistep_behind, fresh]

theorem multistep_preserves {holds : Machine → Prop}
    (tick : ∀ machine dice, holds machine → holds (machine.tick dice).machine)
    {machine : Machine} (before : holds machine) (dice : Dice) (count : Nat) :
    holds (machine.multistep dice count).machine := by
  induction count generalizing machine dice with
  | zero => exact before
  | succ count ih =>
      cases active : machine.isAwaitingKey with
      | true =>
          rw [multistep_of_awaiting active]
          exact before
      | false =>
          rw [multistep_succ active]
          split
          · exact tick machine dice before
          · exact ih (tick machine dice before) _

/-- The number of ticks that a batch takes: it ends early at a wait or a fault. -/
def ticksTaken (machine : Machine) (dice : Dice) : Nat → Nat
  | 0 => 0
  | count + 1 =>
      if machine.isAwaitingKey then 0
      else if (machine.tick dice).failed then 1
      else (machine.tick dice).machine.ticksTaken (machine.tick dice).dice count + 1

end Machine

/-! ### Unrolling a history -/

def Operation.elements (operation : Operation) (machine : Machine) (dice : Dice) :
    List Operation :=
  match operation with
  | .multistep count => List.replicate (machine.ticksTaken dice count) .tick
  | operation => [operation]

def History.remains (history : History) : Machine × Dice × List TraceLine :=
  (history.machine, history.dice, history.trace)

def Outcome.remains {α : Type} (outcome : Outcome α) : Machine × Dice × List TraceLine :=
  (outcome.machine, outcome.dice, outcome.trace)

namespace Machine

/-- A history with each batch replaced by the ticks it takes. -/
def unroll (machine : Machine) (dice : Dice) : List Operation → List Operation
  | [] => []
  | operation :: operations =>
      let after := operation.apply machine dice
      operation.elements machine dice ++ after.machine.unroll after.dice operations

theorem run_append (machine : Machine) (dice : Dice) (earlier later : List Operation) :
    machine.run dice (earlier ++ later) =
      let first := machine.run dice earlier
      let second := first.machine.run first.dice later
      { second with
        results := first.results ++ second.results
        trace := second.trace ++ first.trace } := by
  induction earlier generalizing machine dice with
  | nil => simp [run]
  | cons operation rest ih => simp [run, ih]

theorem run_take_succ (machine : Machine) (dice : Dice) {operations : List Operation}
    {count : Nat} (inside : count < operations.length) :
    (machine.run dice (operations.take (count + 1))).machine =
      (operations[count].apply (machine.run dice (operations.take count)).machine
        (machine.run dice (operations.take count)).dice).machine := by
  rw [List.take_succ_eq_append_getElem inside, run_append]
  rfl

private theorem run_ticksTaken (machine : Machine) (dice : Dice) (count : Nat) :
    (machine.run dice (List.replicate (machine.ticksTaken dice count) .tick)).remains =
      (machine.multistep dice count).remains := by
  induction count generalizing machine dice with
  | zero => rfl
  | succ count ih =>
      cases active : machine.isAwaitingKey with
      | true =>
          rw [multistep_of_awaiting active, ticksTaken, if_pos active]
          rfl
      | false =>
          rw [multistep_succ active, ticksTaken, if_neg (by simp [active])]
          split
          · simp [run, History.remains, Outcome.remains, Operation.apply, Outcome.map]
          · have rest := ih (machine.tick dice).machine (machine.tick dice).dice
            simp only [History.remains, Outcome.remains, Prod.mk.injEq] at rest
            obtain ⟨sameMachine, sameDice, sameTrace⟩ := rest
            simp only [List.replicate_succ, run, Operation.apply, Outcome.map, History.remains,
              Outcome.remains, Outcome.behind, sameMachine, sameDice, sameTrace]

theorem run_elements (operation : Operation) (machine : Machine) (dice : Dice) :
    (machine.run dice (operation.elements machine dice)).remains =
      (operation.apply machine dice).remains := by
  cases operation with
  | multistep count => exact run_ticksTaken machine dice count
  | _ => simp [Operation.elements, run, History.remains, Outcome.remains]

theorem run_unroll (machine : Machine) (dice : Dice) (operations : List Operation) :
    (machine.run dice (machine.unroll dice operations)).remains =
      (machine.run dice operations).remains := by
  induction operations generalizing machine dice with
  | nil => rfl
  | cons operation operations ih =>
      have first := run_elements operation machine dice
      simp only [History.remains, Outcome.remains, Prod.mk.injEq] at first
      obtain ⟨sameMachine, sameDice, sameTrace⟩ := first
      have rest := ih (operation.apply machine dice).machine (operation.apply machine dice).dice
      simp only [History.remains, Prod.mk.injEq] at rest
      obtain ⟨restMachine, restDice, restTrace⟩ := rest
      rw [unroll, run_append]
      simp only [run, History.remains, sameMachine, sameDice, sameTrace, restMachine, restDice,
        restTrace]

theorem mem_unroll {machine : Machine} {dice : Dice} {operations : List Operation}
    {element : Operation} (member : element ∈ machine.unroll dice operations) :
    element = .tick ∨ element ∈ operations ∧ ∀ count, element ≠ .multistep count := by
  induction operations generalizing machine dice with
  | nil => cases member
  | cons operation operations ih =>
      rcases List.mem_append.mp member with here | later
      · cases operation with
        | multistep count => exact .inl (List.eq_of_mem_replicate here)
        | _ =>
            cases List.mem_singleton.mp here
            exact .inr ⟨List.mem_cons_self, fun count same => by cases same⟩
      · rcases ih later with tick | ⟨present, elementary⟩
        · exact .inl tick
        · exact .inr ⟨List.mem_cons_of_mem _ present, elementary⟩

end Machine

/-! ### Reachable machines -/

namespace Machine

inductive Fresh : Machine → Prop
  | standard : Fresh standard
  | created {machine : Machine} (font : UInt16) (disassembler : Disassembler)
      (settings : Settings) (made : create font disassembler settings = .ok machine) :
      Fresh machine

/-- Each operation may find dice of its own, so every sequence of random bytes occurs. -/
inductive Reachable : Machine → Prop
  | fresh {machine : Machine} (made : machine.Fresh) : Reachable machine
  | apply {machine : Machine} (before : Reachable machine) (operation : Operation)
      (dice : Dice) : Reachable (operation.apply machine dice).machine

theorem Reachable.run {machine : Machine} (before : machine.Reachable) (dice : Dice)
    (operations : List Operation) : (machine.run dice operations).machine.Reachable := by
  induction operations generalizing machine dice with
  | nil => exact before
  | cons operation operations ih => exact ih (before.apply operation dice) _

end Machine

end Chip8
