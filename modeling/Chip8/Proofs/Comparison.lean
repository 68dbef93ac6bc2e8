import Chip8.Proofs.Batches

/-!
Runs side by side. A run executes a list of words, one for each tick that executes an
instruction. Two batches of ticks on related machines agree if each of their ticks does, and
for that it is enough to look at the words that the first of them executes.
-/

namespace Chip8

/-! ### The words that a run executes -/

namespace Machine

def executes? (machine : Machine) (dice : Dice) : Option UInt16 :=
  if machine.isIdle || (machine.tick dice).failed then none
  else machine.memory.word? machine.pc.toNat

theorem executes?_eq_some_iff {machine : Machine} {dice : Dice} {word : UInt16} :
    machine.executes? dice = some word ↔ machine.Executes dice word := by
  rw [Executes, fetches_iff, ← failed_eq_false_iff, executes?]
  cases machine.isIdle with
  | true => simp
  | false =>
      cases (machine.tick dice).failed with
      | true => simp
      | false => simp

def executedTimes (machine : Machine) (dice : Dice) : Nat → List UInt16
  | 0 => []
  | count + 1 =>
      let first := machine.tick dice
      (machine.executes? dice).toList ++
        if first.failed then [] else first.machine.executedTimes first.dice count

end Machine

def Operation.executed (operation : Operation) (machine : Machine) (dice : Dice) : List UInt16 :=
  match operation with
  | .tick => (machine.executes? dice).toList
  | .multistep count => machine.executedTimes dice count
  | _ => []

/-- The words that a history executes, in order. -/
def Machine.executed (machine : Machine) (dice : Dice) : List Operation → List UInt16
  | [] => []
  | operation :: operations =>
      let after := operation.apply machine dice
      operation.executed machine dice ++ after.machine.executed after.dice operations

/-! ### Outcomes that agree -/

def TellsAlike (related : Machine → Machine → Prop) : Prop :=
  ∀ {first second}, related first second → second.traceLines = first.traceLines

namespace Outcome

/-- Two outcomes that differ in nothing but the machines they leave, which are related, and in
what they print only as far as related machines tell different things. -/
structure Agrees {α : Type} (related : Machine → Machine → Prop) (first second : Outcome α) :
    Prop where
  result : second.result = first.result
  dice : second.dice = first.dice
  trace : TellsAlike related → second.trace = first.trace
  machine : related first.machine second.machine

variable {related : Machine → Machine → Prop}

theorem Agrees.map {α β : Type} {first second : Outcome α} (agrees : Agrees related first second)
    (convert : α → β) : Agrees related (first.map convert) (second.map convert) :=
  ⟨congrArg (Except.map convert) agrees.result, agrees.dice, agrees.trace, agrees.machine⟩

theorem Agrees.eq_with_machine {first second : Outcome α} (agrees : Agrees related first second)
    (tells : TellsAlike related) {left : Machine} (leaves : second.machine = left) :
    second = { first with machine := left } := by
  have trace := agrees.trace tells
  rcases agrees with ⟨result, dice, -, -⟩
  rcases second with ⟨⟨_, machine⟩, _, _⟩
  simp only at result dice trace leaves
  rw [result, dice, trace, leaves]

theorem Agrees.failed {first second : Outcome Unit} (agrees : Agrees related first second) :
    second.failed = first.failed := by
  rw [Outcome.failed, Outcome.failed, agrees.result]

theorem Agrees.behind {earlier earlierTwin later laterTwin : Outcome Unit}
    (before : Agrees related earlier earlierTwin) (after : Agrees related later laterTwin) :
    Agrees related (earlier.behind later) (earlierTwin.behind laterTwin) := by
  refine ⟨after.result, after.dice, fun alike => ?_, after.machine⟩
  rw [Outcome.behind, Outcome.behind, after.trace alike, before.trace alike]

end Outcome

namespace Machine

open Outcome (Agrees)

variable {related : Machine → Machine → Prop} {allowed : UInt16 → Prop}

/-- Two executions of an instruction that are refused with one fault, or leave related machines. -/
inductive SameFate (related : Machine → Machine → Prop) :
    Except Fault Machine → Except Fault Machine → Prop
  | refused (fault : Fault) : SameFate related (.error fault) (.error fault)
  | executed {first second : Machine} (alike : related first second) :
      SameFate related (.ok first) (.ok second)

private theorem SameFate.of_refused {fault : Fault} {second : Except Fault Machine}
    (fate : SameFate related (.error fault) second) : second = .error fault := by
  cases fate
  rfl

private theorem SameFate.of_executed {first : Machine} {second : Except Fault Machine}
    (fate : SameFate related (.ok first) second) :
    ∃ after, second = .ok after ∧ related first after := by
  cases fate with
  | executed alike => exact ⟨_, rfl, alike⟩

structure FetchesAlike (related : Machine → Machine → Prop) : Prop where
  isIdle : ∀ {first second}, related first second → second.isIdle = first.isIdle
  pc : ∀ {first second}, related first second → second.pc = first.pc
  memory : ∀ {first second}, related first second → second.memory = first.memory
  afterFetch : ∀ {first second}, related first second → ∀ word,
    related (first.afterFetch word) (second.afterFetch word)
  countCycle : ∀ {first second}, related first second → related first.countCycle second.countCycle

def TicksAlike (related : Machine → Machine → Prop) (allowed : UInt16 → Prop) : Prop :=
  ∀ first second dice, related first second →
    (∀ word, first.executes? dice = some word → allowed word) →
      Agrees related (first.tick dice) (second.tick dice) ∧
        second.executes? dice = first.executes? dice

/-- Every instruction has the same fate on related machines, unless it succeeds and its word is
not allowed. -/
def ExecutesAlike (related : Machine → Machine → Prop) (allowed : UInt16 → Prop) : Prop :=
  ∀ first second word instruction roll, related first second →
    Instruction.ofWord? word = some instruction →
    (∀ after, first.execute roll instruction = .ok after → allowed word) →
      SameFate related (first.execute roll instruction) (second.execute roll instruction)

private theorem ExecutesAlike.agrees_tick (executes : ExecutesAlike related allowed)
    (fetches : FetchesAlike related) {first second : Machine} (before : related first second)
    (dice : Dice) (harmless : ∀ word, first.Executes dice word → allowed word) :
    Agrees related (first.tick dice) (second.tick dice) := by
  have sameFetch (word : UInt16) (fetched : first.Fetches word) : second.Fetches word := by
    rw [fetches_iff, fetches.pc before, fetches.memory before]
    exact fetches_iff.mp fetched
  have poised (word : UInt16) : related (first.poised word) (second.poised word) :=
    fetches.countCycle (fetches.afterFetch before word)
  have ticks := ticks_tick first dice
  generalize ticked : first.tick dice = outcome at ticks ⊢
  cases ticks with
  | idle still =>
      rw [tick_of_idle (fetches.isIdle before ▸ still)]
      exact ⟨rfl, rfl, fun _ => rfl, before⟩
  | astray outside busy =>
      rw [tick_of_astray (fetches.isIdle before ▸ busy) (fetches.pc before ▸ outside),
        fetches.pc before]
      exact ⟨rfl, rfl, fun _ => rfl, before⟩
  | unknown word busy fetched undecoded =>
      have passed := fetches.afterFetch before word
      rw [tick_of_undecoded (fetches.isIdle before ▸ busy) (sameFetch word fetched) undecoded,
        fetches.pc before]
      exact ⟨rfl, rfl, fun alike => alike passed, passed⟩
  | refused word instruction fault busy fetched decoded refused =>
      have unharmed (after : Machine) :
          (first.poised word).execute dice.roll instruction = .ok after → allowed word := by
        rw [refused]
        nofun
      have fate := executes (first.poised word) (second.poised word) word instruction dice.roll
        (poised word) decoded unharmed
      rw [refused] at fate
      rw [tick_of_refused (fetches.isIdle before ▸ busy) (sameFetch word fetched) decoded
        fate.of_refused]
      exact ⟨rfl, rfl, fun alike => alike (poised word), poised word⟩
  | executed word instruction after busy fetched decoded ran =>
      have fate := executes (first.poised word) (second.poised word) word instruction dice.roll
        (poised word) decoded fun _ _ => harmless word ⟨busy, fetched, by rw [ticked]⟩
      rw [ran] at fate
      obtain ⟨twin, twinRan, alike⟩ := fate.of_executed
      rw [tick_of_executed (fetches.isIdle before ▸ busy) (sameFetch word fetched) decoded
        twinRan]
      exact ⟨rfl, rfl, fun tells => tells (poised word), alike⟩

theorem ExecutesAlike.ticksAlike (executes : ExecutesAlike related allowed)
    (fetches : FetchesAlike related) : TicksAlike related allowed := by
  intro first second dice before harmless
  have agrees := executes.agrees_tick fetches before dice fun word executed =>
    harmless word (executes?_eq_some_iff.mpr executed)
  refine ⟨agrees, ?_⟩
  rw [executes?, executes?, agrees.failed, fetches.isIdle before, fetches.pc before,
    fetches.memory before]

theorem TicksAlike.tickTimes (alike : TicksAlike related allowed) {first second : Machine}
    (before : related first second) {dice : Dice} {count : Nat}
    (harmless : ∀ word ∈ first.executedTimes dice count, allowed word) :
    Agrees related (first.tickTimes dice count) (second.tickTimes dice count) ∧
      second.executedTimes dice count = first.executedTimes dice count := by
  induction count generalizing first second dice with
  | zero => exact ⟨⟨rfl, rfl, fun _ => rfl, before⟩, rfl⟩
  | succ count ih =>
      rw [executedTimes] at harmless
      obtain ⟨ticked, sameWord⟩ := alike first second dice before fun word executed =>
        harmless word (List.mem_append_left _ (Option.mem_toList.mpr executed))
      rw [Machine.tickTimes, Machine.tickTimes, executedTimes, executedTimes, Outcome.andThen,
        Outcome.andThen, ticked.failed, sameWord]
      cases failed : (first.tick dice).failed with
      | true => exact ⟨ticked, rfl⟩
      | false =>
          simp only [failed, Bool.false_eq_true, if_false] at harmless ⊢
          rw [ticked.dice]
          obtain ⟨later, sameWords⟩ := ih ticked.machine fun word executed =>
            harmless word (List.mem_append_right _ executed)
          exact ⟨ticked.behind later, by rw [sameWords]⟩

theorem TicksAlike.multistep (alike : TicksAlike related allowed) {first second : Machine}
    (before : related first second) {dice : Dice} {count : Nat}
    (harmless : ∀ word ∈ first.executedTimes dice count, allowed word) :
    Agrees related (first.multistep dice count) (second.multistep dice count) ∧
      second.executedTimes dice count = first.executedTimes dice count := by
  rw [multistep_eq_tickTimes, multistep_eq_tickTimes]
  exact alike.tickTimes before harmless

/-! ### Histories that go alike -/

structure RunsAlike (related : Machine → Machine → Prop) (first second : Machine) (dice : Dice)
    (left right : List Operation) : Prop where
  executed : second.executed dice right = first.executed dice left
  results : (second.run dice right).results = (first.run dice left).results
  rolled : (second.run dice right).dice = (first.run dice left).dice
  machine : related (first.run dice left).machine (second.run dice right).machine
  told : TellsAlike related → (second.run dice right).trace = (first.run dice left).trace

structure RunsAndTellsAlike (related : Machine → Machine → Prop) (first second : Machine)
    (dice : Dice) (left right : List Operation) : Prop
    extends RunsAlike related first second dice left right where
  trace : (second.run dice right).trace = (first.run dice left).trace

/-- An operation that agrees with its twin, as long as it executes no word but one that is
allowed. -/
def OperationsAlike (related : Machine → Machine → Prop) (allowed : UInt16 → Prop)
    (twin : Operation → Operation) : Prop :=
  ∀ operation first second dice, related first second →
    (∀ word ∈ operation.executed first dice, allowed word) →
      Agrees related (operation.apply first dice) ((twin operation).apply second dice) ∧
        (twin operation).executed second dice = operation.executed first dice

theorem OperationsAlike.run {twin : Operation → Operation}
    (alike : OperationsAlike related allowed twin) {first second : Machine}
    (before : related first second) {dice : Dice} {operations : List Operation}
    (harmless : ∀ word ∈ first.executed dice operations, allowed word) :
    RunsAlike related first second dice operations (operations.map twin) := by
  induction operations generalizing first second dice with
  | nil => exact ⟨rfl, rfl, rfl, before, fun _ => rfl⟩
  | cons operation operations ih =>
      rw [Machine.executed] at harmless
      obtain ⟨agrees, sameWords⟩ := alike operation first second dice before fun word member =>
        harmless word (List.mem_append_left _ member)
      have rest := ih agrees.machine fun word member =>
        harmless word (List.mem_append_right _ member)
      refine ⟨?_, ?_, ?_, ?_, fun tells => ?_⟩ <;> rw [List.map_cons]
      · rw [Machine.executed, Machine.executed, sameWords, agrees.dice, rest.executed]
      · rw [Machine.run, Machine.run, agrees.result, agrees.dice, rest.results]
      · rw [Machine.run, Machine.run]
        dsimp only
        rw [agrees.dice, rest.rolled]
      · rw [Machine.run, Machine.run]
        dsimp only
        rw [agrees.dice]
        exact rest.machine
      · rw [Machine.run, Machine.run]
        dsimp only
        rw [agrees.dice, agrees.trace tells, rest.told tells]

private theorem executed_append (machine : Machine) (dice : Dice) (earlier later : List Operation) :
    machine.executed dice (earlier ++ later) =
      machine.executed dice earlier ++
        (machine.run dice earlier).machine.executed (machine.run dice earlier).dice later := by
  induction earlier generalizing machine dice with
  | nil => rfl
  | cons operation rest ih =>
      rw [List.cons_append, Machine.executed, Machine.executed, ih, List.append_assoc]
      rfl

theorem executed_take_subset (machine : Machine) (dice : Dice) (operations : List Operation)
    (count : Nat) :
    machine.executed dice (operations.take count) ⊆ machine.executed dice operations := by
  have cut := machine.executed_append dice (operations.take count) (operations.drop count)
  rw [List.take_append_drop] at cut
  rw [cut]
  exact List.subset_append_left _ _

end Machine

end Chip8
