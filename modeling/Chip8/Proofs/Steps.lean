import Chip8.Proofs.Comparison

/-!
The steps of a history. A step is an operation together with the machine and the dice that it
finds, so that one can tell what each operation of a history did and in which order. The single
steps of a history are those of the history with its batches taken apart: each of them is one
tick or one request of the host.
-/

namespace Chip8

structure Step where
  operation : Operation
  machine : Machine
  dice : Dice

namespace Step

def outcome (step : Step) : Outcome Answer := step.operation.apply step.machine step.dice

/-- The word that a step fetches, if it is a tick that fetches one. -/
def fetches? (step : Step) : Option UInt16 :=
  match step.operation with
  | .tick =>
      if step.machine.isIdle then none else step.machine.memory.word? step.machine.pc.toNat
  | _ => none

/-- The word of the instruction that a step executes, if it is a tick that executes one. -/
def executes? (step : Step) : Option UInt16 :=
  match step.operation with
  | .tick => step.machine.executes? step.dice
  | _ => none

theorem executes?_eq_some_iff {step : Step} {word : UInt16} :
    step.executes? = some word ↔
      step.operation = .tick ∧ step.machine.Executes step.dice word := by
  rcases step with ⟨operation, machine, dice⟩
  cases operation with
  | tick =>
      rw [executes?, Machine.executes?_eq_some_iff]
      exact (and_iff_right rfl).symm
  | _ => exact ⟨nofun, nofun⟩

end Step

namespace Machine

def steps (machine : Machine) (dice : Dice) : List Operation → List Step
  | [] => []
  | operation :: operations =>
      let step : Step := { operation, machine, dice }
      step :: step.outcome.machine.steps step.outcome.dice operations

/-- The steps of a history in which ticks stand for each batch. -/
def singleSteps (machine : Machine) (dice : Dice) (operations : List Operation) : List Step :=
  machine.steps dice (machine.unroll dice operations)

variable {machine : Machine} {dice : Dice} {operations : List Operation}

/-! ### Requests of the host -/

theorem exists_setRegister (machine : Machine) (register : Nat) (value : UInt8) :
    ∃ registers, (machine.setRegister register value).machine = { machine with registers } := by
  rw [setRegister]
  split
  · exact ⟨_, rfl⟩
  · exact ⟨machine.registers, rfl⟩

theorem exists_changeKey (machine : Machine) (key : Nat) (pressed : Bool) :
    ∃ keypad registers state,
      (machine.changeKey key pressed).machine = { machine with keypad, registers, state } := by
  unfold changeKey setRegister
  repeat' split
  all_goals exact ⟨_, _, _, rfl⟩

/-! ### A history and its steps -/

theorem steps_append (machine : Machine) (dice : Dice) (earlier later : List Operation) :
    machine.steps dice (earlier ++ later) =
      machine.steps dice earlier ++
        (machine.run dice earlier).machine.steps (machine.run dice earlier).dice later := by
  induction earlier generalizing machine dice with
  | nil => rfl
  | cons operation rest ih => exact congrArg (_ :: ·) (ih _ _)

theorem operations_steps (machine : Machine) (dice : Dice) (operations : List Operation) :
    (machine.steps dice operations).map Step.operation = operations := by
  induction operations generalizing machine dice with
  | nil => rfl
  | cons operation rest ih => exact congrArg (operation :: ·) (ih _ _)

theorem length_steps (machine : Machine) (dice : Dice) (operations : List Operation) :
    (machine.steps dice operations).length = operations.length := by
  rw [← List.length_map (f := Step.operation), operations_steps]

theorem exists_steps_eq {earlier stretch later : List Step}
    (split : machine.steps dice operations = earlier ++ (stretch ++ later)) :
    ∃ reached rolled, steps reached rolled (stretch.map Step.operation) = stretch := by
  have named : operations = earlier.map Step.operation ++
      (stretch.map Step.operation ++ later.map Step.operation) := by
    rw [← operations_steps machine dice operations, split, List.map_append, List.map_append]
  rw [named, steps_append, steps_append] at split
  have rest := List.append_inj_right split (by rw [length_steps, List.length_map])
  exact ⟨_, _, List.append_inj_left rest (by rw [length_steps, List.length_map])⟩

theorem results_run (machine : Machine) (dice : Dice) (operations : List Operation) :
    (machine.run dice operations).results =
      (machine.steps dice operations).map fun step => step.outcome.result := by
  induction operations generalizing machine dice with
  | nil => rfl
  | cons operation rest ih => exact congrArg (_ :: ·) (ih _ _)

theorem trace_run (machine : Machine) (dice : Dice) (operations : List Operation) :
    (machine.run dice operations).trace.reverse =
      (machine.steps dice operations).flatMap fun step => step.outcome.trace.reverse := by
  induction operations generalizing machine dice with
  | nil => rfl
  | cons operation rest ih =>
      rw [steps, List.flatMap_cons, ← ih, run, List.reverse_append]
      rfl

theorem steps_keep (holds : Machine → Prop)
    (kept : ∀ step ∈ machine.steps dice operations,
      holds step.machine → holds step.outcome.machine)
    (before : holds machine) :
    (∀ step ∈ machine.steps dice operations, holds step.machine) ∧
      holds (machine.run dice operations).machine := by
  induction operations generalizing machine dice with
  | nil => exact ⟨fun _ => nofun, before⟩
  | cons operation rest ih =>
      obtain ⟨first, others⟩ := List.forall_mem_cons.mp kept
      obtain ⟨along, after⟩ := ih others (first before)
      exact ⟨List.forall_mem_cons.mpr ⟨before, along⟩, after⟩

/-! ### Batches taken apart -/

theorem remains_unroll (machine : Machine) (dice : Dice) (operations : List Operation) :
    (machine.run dice (machine.unroll dice operations)).machine =
        (machine.run dice operations).machine ∧
      (machine.run dice (machine.unroll dice operations)).trace =
        (machine.run dice operations).trace := by
  have remains := machine.run_unroll dice operations
  simp only [History.remains, Prod.mk.injEq] at remains
  exact ⟨remains.1, remains.2.2⟩

theorem singleSteps_keep (holds : Machine → Prop)
    (kept : ∀ step ∈ machine.singleSteps dice operations,
      holds step.machine → holds step.outcome.machine)
    (before : holds machine) :
    (∀ step ∈ machine.singleSteps dice operations, holds step.machine) ∧
      holds (machine.run dice operations).machine := by
  have keeps := steps_keep holds kept before
  rw [(machine.remains_unroll dice operations).1] at keeps
  exact keeps

theorem mem_singleSteps {step : Step} (member : step ∈ machine.singleSteps dice operations) :
    step.operation = .tick ∨
      step.operation ∈ operations ∧ ∀ count, step.operation ≠ .multistep count := by
  have named : step.operation ∈ (machine.singleSteps dice operations).map Step.operation :=
    List.mem_map_of_mem member
  rw [singleSteps, operations_steps] at named
  exact mem_unroll named

theorem single_of_mem {step : Step} (member : step ∈ machine.singleSteps dice operations)
    (count : Nat) : step.operation ≠ .multistep count := by
  rcases mem_singleSteps member with ticks | ⟨-, single⟩
  · rw [ticks]
    nofun
  · exact single count

theorem holds_of_mem (holds : Operation → Prop) (tick : holds .tick)
    (given : ∀ operation ∈ operations, holds operation) {step : Step}
    (member : step ∈ machine.singleSteps dice operations) : holds step.operation := by
  rcases mem_singleSteps member with ticks | ⟨present, -⟩
  · rw [ticks]
    exact tick
  · exact given step.operation present

private theorem singleSteps_cons (machine : Machine) (dice : Dice) (operation : Operation)
    (operations : List Operation) :
    machine.singleSteps dice (operation :: operations) =
      machine.steps dice (operation.elements machine dice) ++
        (operation.apply machine dice).machine.singleSteps
          (operation.apply machine dice).dice operations := by
  have elements := run_elements operation machine dice
  simp only [History.remains, Outcome.remains, Prod.mk.injEq] at elements
  rw [singleSteps, unroll, steps_append, elements.1, elements.2.1]
  rfl

private theorem executedTimes_of_awaiting (awaiting : machine.isAwaitingKey = true)
    (dice : Dice) (count : Nat) : machine.executedTimes dice count = [] := by
  have still := isIdle_of_awaiting awaiting
  induction count with
  | zero => rfl
  | succ count ih =>
      rw [executedTimes, tick_of_idle still, executes?, still]
      exact ih

private theorem filterMap_executes?_cons (step : Step) (steps : List Step) :
    (step :: steps).filterMap Step.executes? =
      step.executes?.toList ++ steps.filterMap Step.executes? := by
  cases executed : step.executes? with
  | none => exact List.filterMap_cons_none executed
  | some word => exact List.filterMap_cons_some executed

private theorem executedTimes_eq (machine : Machine) (dice : Dice) (count : Nat) :
    machine.executedTimes dice count =
      (machine.steps dice (List.replicate (machine.ticksTaken dice count) .tick)).filterMap
        Step.executes? := by
  induction count generalizing machine dice with
  | zero => rfl
  | succ count ih =>
      cases active : machine.isAwaitingKey with
      | true =>
          rw [executedTimes_of_awaiting active, ticksTaken, if_pos active]
          rfl
      | false =>
          rw [executedTimes, ticksTaken, if_neg (Bool.eq_false_iff.mp active)]
          cases failed : (machine.tick dice).failed with
          | true => exact (filterMap_executes?_cons ⟨.tick, machine, dice⟩ []).symm
          | false =>
              simp only [Bool.false_eq_true, if_false]
              rw [List.replicate_succ, steps, filterMap_executes?_cons, ih]
              rfl

private theorem executed_eq (machine : Machine) (dice : Dice) (operations : List Operation) :
    machine.executed dice operations =
      (machine.singleSteps dice operations).filterMap Step.executes? := by
  induction operations generalizing machine dice with
  | nil => rfl
  | cons operation rest ih =>
      have own : operation.executed machine dice =
          (machine.steps dice (operation.elements machine dice)).filterMap Step.executes? := by
        cases operation with
        | multistep count => exact executedTimes_eq machine dice count
        | tick => exact ((filterMap_executes?_cons ⟨.tick, machine, dice⟩ []).trans
            (List.append_nil _)).symm
        | _ => rfl
      rw [executed, singleSteps_cons, List.filterMap_append, ← own, ← ih]

theorem mem_executed_iff {word : UInt16} :
    word ∈ machine.executed dice operations ↔
      ∃ step ∈ machine.singleSteps dice operations, step.executes? = some word := by
  rw [executed_eq, List.mem_filterMap]

end Machine

end Chip8
