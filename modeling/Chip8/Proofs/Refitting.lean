import Chip8.Proofs.Comparison
import Chip8.Proofs.Consulting

/-!
The same history under other settings. A refit changes what the host has set of a machine, its
settings and its disassembler. If no instruction of a program consults a choice that the refit
changes, the program goes the same way on the refitted machine, and after every operation the
two machines are the same but for the refit.
-/

namespace Chip8

open Outcome (Agrees)

structure Refit where
  settings : Settings → Settings
  disassembler : Disassembler → Disassembler

/-- An operation for the refitted machine: settings are refitted before they are taken over. -/
def Operation.refitted (operation : Operation) (refit : Refit) : Operation :=
  match operation with
  | .choose settings => .choose (refit.settings settings)
  | operation => operation

namespace Machine

def refitted (machine : Machine) (refit : Refit) : Machine :=
  machine.under (refit.settings machine.settings) (refit.disassembler machine.disassembler)

def SameButFit (refit : Refit) (first second : Machine) : Prop :=
  second = first.refitted refit

end Machine

/-- A refit lets a machine run as before and changes no choice that an allowed word consults. -/
structure Refit.Unnoticed (refit : Refit) (allowed : UInt16 → Prop) : Prop where
  paused : ∀ settings, (refit.settings settings).paused = settings.paused
  choice : ∀ {word instruction}, Instruction.ofWord? word = some instruction → allowed word →
    ∀ trait, instruction.consults trait = true → ∀ settings,
      (refit.settings settings).dialect.choice trait = settings.dialect.choice trait

namespace Machine

variable {refit : Refit} {allowed : UInt16 → Prop}

/-! ### One instruction -/

theorem Obstacle.under {machine : Machine} {instruction : Instruction} {fault : Fault}
    (obstacle : Obstacle machine instruction fault) (settings : Settings)
    (disassembler : Disassembler) :
    Obstacle (machine.under settings disassembler) instruction fault := by
  cases obstacle with
  | underflow empty => exact .underflow empty
  | overflow target full => exact .overflow target full
  | reach instruction outside => exact .reach instruction outside

/-- Whether an instruction is refused is not up to the settings, and what it does only if it
consults a choice that is made otherwise. -/
theorem executesAlike_refit (unnoticed : refit.Unnoticed allowed) :
    ExecutesAlike (SameButFit refit) allowed := by
  rintro first _ word instruction roll rfl decoded harmless
  cases ran : first.execute roll instruction with
  | error fault =>
      have obstacle := execute_eq_error_iff.mp ran
      have refused : (first.refitted refit).execute roll instruction = .error fault :=
        execute_eq_error_iff.mpr (obstacle.under _ _)
      rw [refused]
      exact .refused fault
  | ok after =>
      have same : ∀ trait, instruction.consults trait = true →
          (refit.settings first.settings).dialect.choice trait =
            first.settings.dialect.choice trait :=
        fun trait consulted =>
          unnoticed.choice decoded (harmless after ran) trait consulted first.settings
      rw [refitted, execute_under first _ roll same, ran]
      have kept := (effect_of_execute ran).setting
      have settings : after.settings = first.settings := congrArg Setting.settings kept
      have disassembler : after.disassembler = first.disassembler :=
        congrArg Setting.disassembler kept
      refine .executed ?_
      rw [SameButFit, refitted, settings, disassembler]

private theorem fetchesAlike_refit (unnoticed : refit.Unnoticed allowed) :
    FetchesAlike (SameButFit refit) where
  isIdle := by
    rintro first _ rfl
    exact congrArg (· || first.isAwaitingKey) (unnoticed.paused first.settings)
  pc := by
    rintro first _ rfl
    rfl
  memory := by
    rintro first _ rfl
    rfl
  afterFetch := by
    rintro first _ rfl word
    rfl
  countCycle := by
    rintro first _ rfl
    rfl

private theorem ticksAlike_refit (unnoticed : refit.Unnoticed allowed) :
    TicksAlike (SameButFit refit) allowed :=
  (executesAlike_refit unnoticed).ticksAlike (fetchesAlike_refit unnoticed)

/-! ### One operation -/

theorem Indifferent.agrees_refit {α : Type} {request : Machine → Reply α}
    (indifferent : Indifferent request) (machine : Machine) (dice : Dice) :
    Agrees (SameButFit refit) (Outcome.ofReply dice (request machine))
      (Outcome.ofReply dice (request (machine.refitted refit))) := by
  obtain ⟨settings, disassembler⟩ := indifferent.kept machine
  rw [refitted, indifferent]
  refine ⟨rfl, rfl, fun _ => rfl, ?_⟩
  rw [SameButFit, refitted]
  dsimp only [Outcome.ofReply, Reply.under]
  rw [settings, disassembler]

theorem operationsAlike_refit (unnoticed : refit.Unnoticed allowed) :
    OperationsAlike (SameButFit refit) allowed (Operation.refitted · refit) := by
  rintro operation first _ dice rfl harmless
  have ticksAlike := ticksAlike_refit unnoticed
  cases operation with
  | load program => exact ⟨((load_indifferent program).agrees_refit first dice).map _, rfl⟩
  | reset => exact ⟨⟨rfl, rfl, fun _ => rfl, rfl⟩, rfl⟩
  | tick =>
      obtain ⟨ticked, sameWord⟩ := ticksAlike first _ dice rfl fun word executed =>
        harmless word (Option.mem_toList.mpr executed)
      exact ⟨ticked.map _, congrArg Option.toList sameWord⟩
  | multistep count =>
      obtain ⟨batch, sameWords⟩ := ticksAlike.multistep rfl harmless
      exact ⟨batch.map _, sameWords⟩
  | changeKey key pressed =>
      exact ⟨((changeKey_indifferent key pressed).agrees_refit first dice).map _, rfl⟩
  | decrementTimers => exact ⟨⟨rfl, rfl, fun _ => rfl, rfl⟩, rfl⟩
  | setRegister register value =>
      exact ⟨((setRegister_indifferent register value).agrees_refit first dice).map _, rfl⟩
  | choose settings => exact ⟨⟨rfl, rfl, fun _ => rfl, rfl⟩, rfl⟩

end Machine

end Chip8
