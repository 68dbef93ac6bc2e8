import Mathlib.Data.List.Basic
import Chip8.Proofs.AssemblyText
import Chip8.Proofs.Refitting
import Chip8.Proofs.Steps

/-!
What a trace tells, and that telling it changes nothing else. A machine that traces and one that
does not, whatever their disassemblers, go the same way and answer the same. While a machine
traces, each tick that has fetched a word prints one line about it, whether or not the word could
be executed, and nothing else prints.
-/

namespace Chip8

variable {painter : Text.Painter} {machine : Machine} {dice : Dice} {operations : List Operation}
  {traces : Bool} {disassembler : Disassembler} {word : UInt16} {step : Step}

/-! ### Machines that differ in what they tell -/

def Refit.tracing (traces : Bool) (disassembler : Disassembler) : Refit :=
  { settings := fun settings => { settings with traces := traces }
    disassembler := fun _ => disassembler }

/-- An operation that turns the trace neither on nor off. -/
def Operation.tracing (traces : Bool) : Operation → Operation
  | .choose settings => .choose { settings with traces := traces }
  | operation => operation

private theorem Operation.refitted_tracing (operation : Operation) (traces : Bool)
    (disassembler : Disassembler) :
    operation.refitted (.tracing traces disassembler) = operation.tracing traces := by
  cases operation <;> rfl

theorem Operation.tracing_tracing (operation : Operation) (earlier traces : Bool) :
    (operation.tracing earlier).tracing traces = operation.tracing traces := by
  cases operation <;> rfl

private theorem Refit.unnoticed_tracing (traces : Bool) (disassembler : Disassembler) :
    (Refit.tracing traces disassembler).Unnoticed fun _ => True where
  paused := fun _ => rfl
  choice := fun _ _ _ _ _ => rfl

namespace Machine

def tracing (machine : Machine) (traces : Bool) (disassembler : Disassembler) : Machine :=
  { machine with
    settings := { machine.settings with traces := traces }
    disassembler := disassembler }

theorem operationsAlike_tracing (traces : Bool) (disassembler : Disassembler) :
    OperationsAlike (SameButFit (.tracing traces disassembler)) (fun _ => True)
      (Operation.tracing traces) := by
  have alike := operationsAlike_refit (Refit.unnoticed_tracing traces disassembler)
  simp only [Operation.refitted_tracing] at alike
  exact alike

private theorem runsAlike_tracing (machine : Machine) (traces : Bool) (disassembler : Disassembler)
    (dice : Dice) (operations : List Operation) :
    RunsAlike (SameButFit (.tracing traces disassembler)) machine
      (machine.tracing traces disassembler) dice operations
      (operations.map (Operation.tracing traces)) :=
  (operationsAlike_tracing traces disassembler).run rfl fun _ _ => trivial

end Machine

/-! ### What a line shows -/

private theorem Disassembler.text_eq_invalid_iff (lawful : painter.Lawful)
    (disassembler : Disassembler) (word : UInt16) :
    disassembler.text painter word = painter.paint disassembler.invalid (invalidText word) ↔
      Instruction.ofWord? word = none := by
  constructor
  · intro same
    have visible := congrArg Text.shown same
    have invalid : Text.shown (painter.paint disassembler.invalid (invalidText word)) =
        invalidText word :=
      Text.shown_of_shownFrom
        ((lawful.paint disassembler.invalid).shownFrom_write (printable_invalidText word))
    rw [shown_text lawful, invalid, plainText] at visible
    cases decoded : Instruction.ofWord? word with
    | none => rfl
    | some instruction =>
        rw [decoded] at visible
        exact absurd visible (text_ne_invalidText instruction word)
  · intro undecoded
    rw [text, styled, undecoded]
    rfl

namespace TraceLine

/-- What one sees of a line about a word: the cycle, the address, the word's plain text and
blanks. -/
def row (line : TraceLine) (word : UInt16) (blanks : Nat) : String :=
  Text.decimal ' ' 3 line.cycle ++ " " ++ Text.hex 3 line.address.toNat ++ ": " ++
    Disassembler.plainText word ++ String.ofList (List.replicate blanks ' ')

theorem printable_row (line : TraceLine) (word : UInt16) (blanks : Nat) :
    Text.Printable (line.row word blanks) := by
  have blank : Text.Printable " " := by decide
  have colon : Text.Printable ": " := by decide
  exact (((((Text.printable_decimal 3 line.cycle).append blank).append
    (Text.printable_hex 3 line.address.toNat)).append colon).append
    (Disassembler.printable_plainText word)).append (Text.printable_blanks blanks)

theorem exists_shown_render (lawful : painter.Lawful) (line : TraceLine)
    (text : line.text = disassembler.styled word) :
    ∃ blanks, Text.Printable (line.row word blanks) ∧
      Text.shown (line.render painter) = line.row word blanks ++ "\n" := by
  have cycle := Text.printable_decimal 3 line.cycle
  have address := (Text.printable_hex 3 line.address.toNat).escape_notMem
  have painted : line.text.painted painter = disassembler.text painter word :=
    congrArg (Text.Styled.painted · painter) text
  have blanks : Text.escape ∉
      List.replicate (36 - (disassembler.text painter word).length) ' ' :=
    fun member => absurd (List.eq_of_mem_replicate member) (by decide)
  refine ⟨36 - (disassembler.text painter word).length, line.printable_row word _, ?_⟩
  rw [← String.toList_inj, Text.shown, String.toList_ofList, render, row, painted, Text.padEnd]
  simp only [String.toList_append, List.append_assoc, String.toList_ofList]
  rw [(lawful.tint .grey).shownFrom_write cycle, Text.shownFrom_append_of_notMem (by decide),
    Text.shownFrom_append_of_notMem address, Text.shownFrom_append_of_notMem (by decide),
    Disassembler.shownFrom_text lawful, Text.shownFrom_append_of_notMem blanks]
  rfl

end TraceLine

/-! ### One step -/

namespace Step

/-- The line that a trace has about a step, if the step is a tick that fetches a word. -/
def line? (step : Step) : Option TraceLine :=
  step.fetches?.map fun word =>
    { cycle := step.outcome.machine.cycle
      address := step.machine.pc
      text := step.machine.disassembler.styled word }

theorem line?_eq_none_iff :
    step.line? = none ↔
      step.operation ≠ .tick ∨ step.machine.isIdle = true ∨
        0xffe < step.machine.pc.toNat := by
  rw [line?, Option.map_eq_none_iff, ← Machine.word?_pc_eq_none_iff]
  rcases step with ⟨operation, machine, dice⟩
  cases operation with
  | tick =>
      rw [fetches?]
      cases machine.isIdle <;> simp
  | _ => exact iff_of_true rfl (.inl nofun)

/-- A line tells about a step that fetched a word, and a painter prints it so. -/
structure Told (step : Step) (painter : Text.Painter) (disassembler : Disassembler)
    (word : UInt16) (line : TraceLine) : Prop where
  fetched : step.machine.Fetches word
  address : line.address = step.machine.pc
  cycle : line.cycle = step.outcome.machine.cycle
  text : line.text.painted painter = disassembler.text painter word
  invalid : line.text.painted painter =
      painter.paint disassembler.invalid (Disassembler.invalidText word) ↔
    ∃ unknown address, step.outcome.result = .error (.unknownOpcode unknown address)
  shown : ∃ blanks, Text.Printable (line.row word blanks) ∧
    Text.shown (line.render painter) = line.row word blanks ++ "\n"

end Step

namespace Machine

theorem unknown_iff (busy : machine.isIdle = false) (fetched : machine.Fetches word)
    (dice : Dice) :
    Instruction.ofWord? word = none ↔
      ∃ unknown address, (Operation.tick.apply machine dice).result =
        .error (.unknownOpcode unknown address) := by
  rw [Operation.apply]
  cases decoded : Instruction.ofWord? word with
  | none =>
      rw [tick_of_undecoded busy fetched decoded]
      exact iff_of_true rfl ⟨word, machine.pc, rfl⟩
  | some instruction =>
      refine iff_of_false (Option.some_ne_none instruction) ?_
      rintro ⟨unknown, address, failed⟩
      cases ran : (machine.poised word).execute dice.roll instruction with
      | ok after =>
          rw [tick_of_executed busy fetched decoded ran] at failed
          cases failed
      | error fault =>
          rw [tick_of_refused busy fetched decoded ran] at failed
          have obstacle := execute_eq_error_iff.mp ran
          cases failed
          cases obstacle

private theorem trace_tick (told : machine.settings.traces = true) (dice : Dice) :
    (machine.tick dice).trace = (Step.line? ⟨.tick, machine, dice⟩).toList := by
  have ticks := machine.ticks_tick dice
  have unfolded : Step.line? ⟨.tick, machine, dice⟩ =
      (if machine.isIdle then none else machine.memory.word? machine.pc.toNat).map fun word =>
        { cycle := (machine.tick dice).machine.cycle
          address := machine.pc
          text := machine.disassembler.styled word } := rfl
  rw [unfolded]
  generalize machine.tick dice = outcome at ticks ⊢
  cases ticks with
  | idle still =>
      rw [if_pos still]
      rfl
  | astray outside busy =>
      rw [word?_pc_eq_none_iff.mpr outside, ite_self]
      rfl
  | unknown word busy fetched undecoded =>
      rw [busy, fetches_iff.mp fetched]
      exact if_pos told
  | refused word instruction fault busy fetched decoded refused =>
      rw [busy, fetches_iff.mp fetched]
      exact if_pos told
  | executed word instruction after busy fetched decoded ran =>
      have cycle : after.cycle = machine.cycle + 1 :=
        congrArg Setting.cycle (effect_of_execute ran).setting
      rw [busy, fetches_iff.mp fetched, cycle]
      exact if_pos told

end Machine

namespace Step

private theorem trace_outcome (single : ∀ count, step.operation ≠ .multistep count)
    (told : step.machine.settings.traces = true) : step.outcome.trace = step.line?.toList := by
  rcases step with ⟨operation, machine, dice⟩
  cases operation with
  | tick => exact machine.trace_tick told dice
  | multistep count => exact absurd rfl (single count)
  | _ => rfl

theorem exists_told (lawful : painter.Lawful) {line : TraceLine}
    (present : step.line? = some line) :
    ∃ word, step.Told painter step.machine.disassembler word line := by
  rcases step with ⟨operation, machine, dice⟩
  obtain ⟨word, fetched, rfl⟩ := Option.map_eq_some_iff.mp present
  cases operation with
  | tick =>
      rw [fetches?] at fetched
      cases busy : machine.isIdle with
      | true => simp [busy] at fetched
      | false =>
          simp only [busy, Bool.false_eq_true, if_false] at fetched
          have fetches := Machine.fetches_iff.mpr fetched
          have invalid := (machine.disassembler.text_eq_invalid_iff lawful word).trans
            (Machine.unknown_iff busy fetches dice)
          exact ⟨word, fetches, rfl, rfl, rfl, invalid,
            TraceLine.exists_shown_render lawful _ rfl⟩
  | _ => nomatch fetched

end Step

namespace Machine

/-! ### A whole history -/

private theorem tracing_step (fixed : step.operation.tracing traces = step.operation)
    (before : SameButFit (.tracing traces disassembler) step.machine step.machine) :
    SameButFit (.tracing traces disassembler) step.outcome.machine step.outcome.machine := by
  obtain ⟨agrees, -⟩ := operationsAlike_tracing traces disassembler step.operation step.machine
    step.machine step.dice before fun _ _ => trivial
  rw [fixed] at agrees
  exact agrees.machine

theorem tracing_along (machine : Machine) (dice : Dice)
    (fixed : ∀ operation ∈ operations,
      operation.tracing machine.settings.traces = operation) :
    ∀ step ∈ machine.singleSteps dice operations,
      step.machine.settings.traces = machine.settings.traces ∧
        step.machine.disassembler = machine.disassembler := by
  intro step member
  have begins : SameButFit (.tracing machine.settings.traces machine.disassembler) machine
      machine := rfl
  have along := (singleSteps_keep
    (fun reached => SameButFit (.tracing machine.settings.traces machine.disassembler) reached
      reached) (fun step member before => ?_) begins).1 step member
  · exact ⟨congrArg (·.settings.traces) along, congrArg (·.disassembler) along⟩
  · exact tracing_step (holds_of_mem (fun operation =>
      operation.tracing machine.settings.traces = operation) rfl fixed member) before

theorem trace_run_eq_lines (told : machine.settings.traces = true)
    (fixed : ∀ operation ∈ operations, operation.tracing true = operation) :
    (machine.run dice operations).trace.reverse =
      (machine.singleSteps dice operations).filterMap Step.line? := by
  have along := machine.tracing_along dice (told ▸ fixed)
  have lines : ∀ step ∈ machine.singleSteps dice operations,
      step.outcome.trace.reverse = step.line?.toList := by
    intro step member
    rw [step.trace_outcome (single_of_mem member) ((along step member).1.trans told)]
    cases step.line? <;> rfl
  rw [← (machine.remains_unroll dice operations).2, trace_run, List.filterMap_eq_flatMap_toList]
  exact List.flatMap_congr lines

/-- A machine that differs in what it traces and in its disassembler goes the same way. With the
trace on throughout, the lines are those about the ticks that fetched a word, one for each and in
order, and a line shows an invalid word exactly if its tick failed for that reason, whoever paints
it. -/
theorem tracing_is_faithful (lawful : painter.Lawful) (machine : Machine) (traces : Bool)
    (disassembler : Disassembler) (dice : Dice) (operations : List Operation) :
    let left := operations.map (Operation.tracing machine.settings.traces)
    let right := operations.map (Operation.tracing traces)
    let other := machine.tracing traces disassembler
    let steps := machine.singleSteps dice left
    (other.run dice right).results = (machine.run dice left).results ∧
      (other.run dice right).dice = (machine.run dice left).dice ∧
      (∀ count, (other.run dice (right.take count)).machine =
        (machine.run dice (left.take count)).machine.tracing traces disassembler) ∧
      (machine.settings.traces = true →
        (machine.run dice left).trace.reverse = steps.filterMap Step.line? ∧
          ∀ step ∈ steps,
            (step.line? = none ↔ step.operation ≠ .tick ∨ step.machine.isIdle = true ∨
              0xffe < step.machine.pc.toNat) ∧
            ∀ line, step.line? = some line →
              ∃ word, step.Told painter machine.disassembler word line) := by
  intro left right other steps
  have mapped : right = left.map (Operation.tracing traces) := by
    simp only [left, right, List.map_map, Function.comp_def, Operation.tracing_tracing]
  have fixed : ∀ operation ∈ left,
      operation.tracing machine.settings.traces = operation := by
    intro operation member
    obtain ⟨given, -, rfl⟩ := List.mem_map.mp member
    exact given.tracing_tracing _ _
  have alike (some : List Operation) := machine.runsAlike_tracing traces disassembler dice some
  refine ⟨?_, ?_, fun count => ?_, fun told => ⟨?_, fun step member => ⟨?_, ?_⟩⟩⟩
  · rw [mapped]
    exact (alike left).results
  · rw [mapped]
    exact (alike left).rolled
  · rw [mapped, ← List.map_take]
    exact (alike (left.take count)).machine
  · exact trace_run_eq_lines told (told ▸ fixed)
  · exact Step.line?_eq_none_iff
  · intro line present
    rw [← (machine.tracing_along dice fixed step member).2]
    exact Step.exists_told lawful present

def faltering : List UInt8 := [0x61, 0x05, 0x00, 0xee, 0xff, 0xff, 0xf2, 0x0a]

/-- Four of six ticks have a line: neither the paused tick nor the one that finds the machine
waiting has any. -/
theorem faltering_traced :
    let dice : Dice := { source := fun _ => 0, taken := 0 }
    let operations : List Operation :=
      [.multistep 9, .choose { Settings.standard with paused := true }, .tick,
        .choose Settings.standard, .tick, .tick, .tick]
    let machine := (standard.load faltering).machine.tracing true .coloured
    let left := operations.map (Operation.tracing true)
    let told := (machine.run dice left).trace.reverse
    Text.Painter.terminal.Lawful ∧ machine.settings.traces = true ∧
      told = (machine.singleSteps dice left).filterMap Step.line? ∧
      told.map (fun line => (line.cycle, line.address)) =
        [(1, 0x200), (2, 0x202), (2, 0x204), (3, 0x206)] ∧
      ((machine.tracing false .plain).run dice (operations.map (Operation.tracing false))).results =
        (machine.run dice left).results := by
  intro dice operations machine left told
  have traces : machine.settings.traces = true := rfl
  have lines : told.map (fun line => (line.cycle, line.address)) =
      [(1, 0x200), (2, 0x202), (2, 0x204), (3, 0x206)] := by
    decide +kernel
  obtain ⟨results, -, -, faithful⟩ :=
    tracing_is_faithful Text.Painter.lawful_terminal machine false .plain dice operations
  exact ⟨Text.Painter.lawful_terminal, traces, (faithful traces).1, lines, results⟩

end Machine

end Chip8
