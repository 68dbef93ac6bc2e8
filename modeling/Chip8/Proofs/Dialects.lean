import Chip8.Proofs.Decoding
import Chip8.Proofs.Refitting

/-!
What a dialect decides. A program that executes no instruction of the family which consults a
choice does not notice how the choice was made: the same history gives the same results, executes
the same words, prints the same and leaves the same machine but for the choice.
-/

namespace Chip8

/-- The words of the instructions that consult a choice. -/
def Trait.Concerns (trait : Trait) (word : UInt16) : Prop :=
  match trait with
  | .shiftsSecond =>
      word.toNat / 4096 = 0x8 ∧ (word.toNat % 16 = 0x6 ∨ word.toNat % 16 = 0xe)
  | .keepsIndex =>
      word.toNat / 4096 = 0xf ∧ (word.toNat % 256 = 0x55 ∨ word.toNat % 256 = 0x65)
  | .wrapsSprites => word.toNat / 4096 = 0xd
  | .clearsFlag =>
      word.toNat / 4096 = 0x8 ∧
        (word.toNat % 16 = 0x1 ∨ word.toNat % 16 = 0x2 ∨ word.toNat % 16 = 0x3)
  | .jumpsByAddress => word.toNat / 4096 = 0xb
  | .flagLast =>
      word.toNat / 4096 = 0x8 ∧
        (word.toNat % 16 = 0x5 ∨ word.toNat % 16 = 0x6 ∨ word.toNat % 16 = 0x7 ∨
          word.toNat % 16 = 0xe)

instance (trait : Trait) (word : UInt16) : Decidable (trait.Concerns word) :=
  match trait with
  | .shiftsSecond => inferInstanceAs (Decidable (_ ∧ (_ ∨ _)))
  | .keepsIndex => inferInstanceAs (Decidable (_ ∧ (_ ∨ _)))
  | .wrapsSprites => inferInstanceAs (Decidable (_ = _))
  | .clearsFlag => inferInstanceAs (Decidable (_ ∧ (_ ∨ _ ∨ _)))
  | .jumpsByAddress => inferInstanceAs (Decidable (_ = _))
  | .flagLast => inferInstanceAs (Decidable (_ ∧ (_ ∨ _ ∨ _ ∨ _)))

private theorem Trait.concerns_of_consults {word : UInt16} {instruction : Instruction}
    (decoded : Instruction.ofWord? word = some instruction) {trait : Trait}
    (consulted : instruction.consults trait = true) : trait.Concerns word := by
  cases instruction with
  | bare op => cases consulted
  | byte op x value => cases consulted
  | address op target =>
      cases op <;> cases trait <;> cases consulted
      exact ((Instruction.ofWord?_eq_address_iff 0xb rfl).mp decoded).1
  | sprite x y rows =>
      cases trait <;> cases consulted
      exact (Instruction.ofWord?_eq_sprite_iff.mp decoded).1
  | register op x =>
      cases op <;> cases trait <;> cases consulted <;>
        obtain ⟨first, last, -⟩ := (Instruction.ofWord?_eq_register_iff 0xf _ 0x5
          (by decide) (by decide) rfl).mp decoded
      · exact ⟨first, .inl last⟩
      · exact ⟨first, .inr last⟩
  | pair op x y =>
      cases op <;> cases trait <;> cases consulted <;>
        obtain ⟨first, last, -⟩ := (Instruction.ofWord?_eq_pair_iff 0x8 _ rfl).mp decoded <;>
        simp only [Concerns, first, last, true_and] <;> decide

/-! ### One choice made otherwise -/

def Settings.adopting (settings : Settings) (trait : Trait) (chosen : Bool) : Settings :=
  { settings with dialect := settings.dialect.withChoice trait chosen }

/-- An operation of a host that leaves a choice as it is: settings are taken over but for that. -/
def Operation.adopting (operation : Operation) (trait : Trait) (chosen : Bool) : Operation :=
  match operation with
  | .choose settings => .choose (settings.adopting trait chosen)
  | operation => operation

private theorem Operation.adopting_adopting (trait : Trait) (earlier chosen : Bool)
    (operation : Operation) :
    (operation.adopting trait earlier).adopting trait chosen =
      operation.adopting trait chosen := by
  cases operation with
  | choose settings =>
      simp only [Operation.adopting, Settings.adopting, Dialect.withChoice_withChoice]
  | _ => rfl

/-- The operations of a history as they are for a machine that keeps to a choice. -/
def keeping (trait : Trait) (chosen : Bool) (operations : List Operation) : List Operation :=
  operations.map (·.adopting trait chosen)

private theorem keeping_keeping (trait : Trait) (earlier chosen : Bool)
    (operations : List Operation) :
    (keeping trait earlier operations).map (·.adopting trait chosen) =
      keeping trait chosen operations := by
  rw [keeping, List.map_map]
  exact List.map_congr_left fun operation _ => operation.adopting_adopting trait earlier chosen

theorem take_keeping (trait : Trait) (chosen : Bool) (operations : List Operation)
    (count : Nat) :
    (keeping trait chosen operations).take count = keeping trait chosen (operations.take count) :=
  List.map_take.symm

namespace Machine

def adopting (machine : Machine) (trait : Trait) (chosen : Bool) : Machine :=
  machine.under (machine.settings.adopting trait chosen) machine.disassembler

def SameButTrait (trait : Trait) (chosen : Bool) (first second : Machine) : Prop :=
  second = first.adopting trait chosen

section

variable {trait : Trait} {chosen : Bool}

def traitRefit (trait : Trait) (chosen : Bool) : Refit :=
  { settings := fun settings => settings.adopting trait chosen
    disassembler := id }

private theorem unnoticed_trait :
    (traitRefit trait chosen).Unnoticed fun word => ¬ trait.Concerns word where
  paused := fun _ => rfl
  choice := by
    intro word instruction decoded unconcerned other consulted settings
    have apart : other ≠ trait := by
      rintro rfl
      exact unconcerned (Trait.concerns_of_consults decoded consulted)
    change (settings.dialect.withChoice trait chosen).choice other = settings.dialect.choice other
    rw [Dialect.choice_withChoice, if_neg apart]

private theorem tellsAlike_trait : TellsAlike (SameButTrait trait chosen) := by
  rintro first _ rfl
  rfl

theorem operationsAlike_trait :
    OperationsAlike (SameButTrait trait chosen) (fun word => ¬ trait.Concerns word)
      (Operation.adopting · trait chosen) :=
  operationsAlike_refit unnoticed_trait

private theorem adopting_own (machine : Machine) (trait : Trait) :
    machine.adopting trait (machine.settings.dialect.choice trait) = machine := by
  simp only [adopting, Settings.adopting, Dialect.withChoice_choice]
  rfl

private theorem choice_adopting (machine : Machine) (trait : Trait) (chosen : Bool) :
    (machine.adopting trait chosen).settings.dialect.choice trait = chosen := by
  simp only [adopting, under, Settings.adopting, Dialect.choice_withChoice, if_true]

variable {machine : Machine} {dice : Dice} {operations : List Operation}

theorem runsAlike_trait (earlier chosen : Bool)
    (unconcerned : ∀ word ∈ machine.executed dice (keeping trait earlier operations),
      ¬ trait.Concerns word) :
    RunsAndTellsAlike (SameButTrait trait chosen) machine (machine.adopting trait chosen) dice
      (keeping trait earlier operations) (keeping trait chosen operations) := by
  have related : SameButTrait trait chosen machine (machine.adopting trait chosen) := rfl
  have alike := operationsAlike_trait.run related unconcerned
  rw [keeping_keeping trait earlier chosen operations] at alike
  exact ⟨alike, alike.told tellsAlike_trait⟩

private theorem choice_run (machine : Machine) {own : Bool}
    (chosen : own = machine.settings.dialect.choice trait)
    (unconcerned : ∀ word ∈ machine.executed dice (keeping trait own operations),
      ¬ trait.Concerns word) :
    (machine.run dice (keeping trait own operations)).machine.settings.dialect.choice trait =
      own := by
  have same := (runsAlike_trait own own unconcerned).machine
  rw [chosen, adopting_own, ← chosen, SameButTrait] at same
  rw [same, choice_adopting]

end

/-- A program that executes no instruction which a choice concerns runs the same whichever way
it is made, on two machines that are the same but for the choice and under the same operations,
which leave the choice as it is. After each of them the machines are the same but for it. -/
theorem trait_unnoticed (machine : Machine) (trait : Trait) (chosen : Bool) (dice : Dice)
    (operations : List Operation)
    (unconcerned : ∀ word ∈
      machine.executed dice (keeping trait (machine.settings.dialect.choice trait) operations),
      ¬ trait.Concerns word) :
    let own := machine.settings.dialect.choice trait
    let left := keeping trait own operations
    let right := keeping trait chosen operations
    let other := machine.adopting trait chosen
    let first := machine.run dice left
    let second := other.run dice right
    other.executed dice right = machine.executed dice left ∧
      second.results = first.results ∧ second.trace = first.trace ∧ second.dice = first.dice ∧
      ∀ count,
        let after := (machine.run dice (left.take count)).machine
        after.settings.dialect.choice trait = own ∧
          (other.run dice (right.take count)).machine = after.adopting trait chosen := by
  intro own left right other first second
  have whole := runsAlike_trait own chosen unconcerned
  refine ⟨whole.executed, whole.results, whole.trace, whole.rolled, fun count => ?_⟩
  have unconcernedSoFar : ∀ word ∈
      machine.executed dice (keeping trait own (operations.take count)),
      ¬ trait.Concerns word := by
    intro word member
    rw [← take_keeping] at member
    exact unconcerned word (machine.executed_take_subset dice left count member)
  have part := runsAlike_trait own chosen unconcernedSoFar
  rw [take_keeping, take_keeping]
  exact ⟨machine.choice_run rfl unconcernedSoFar, part.machine⟩

def overdrawing : Machine :=
  { standard with
    memory := Memory.zeroed.store 0x200
      [0x81, 0x26, 0xaf, 0xff, 0xd0, 0x15, 0xa3, 0x00, 0xf1, 0x55] }

/-- A sprite that is not drawn does not show whether sprites wrap. The host turns on tracing and
every other choice. -/
theorem overdrawing_alike :
    let dice : Dice := { source := fun _ => 0, taken := 0 }
    let operations : List Operation :=
      [.setRegister 1 9, .multistep 2, .tick,
        .choose { Settings.standard with traces := true, dialect := .uniform true },
        .multistep 2]
    let left := keeping .wrapsSprites false operations
    let right := keeping .wrapsSprites true operations
    let other := overdrawing.adopting .wrapsSprites true
    (∀ word ∈ overdrawing.executed dice left, ¬ Trait.wrapsSprites.Concerns word) ∧
      overdrawing.executed dice left = [0x8126, 0xafff, 0xa300, 0xf155] ∧
      other.executed dice right = overdrawing.executed dice left ∧
      (other.run dice right).results.map Except.isOk = [true, true, false, true, true] ∧
      (other.run dice right).machine =
        (overdrawing.run dice left).machine.adopting .wrapsSprites true := by
  intro dice operations left right other
  have words : overdrawing.executed dice left = [0x8126, 0xafff, 0xa300, 0xf155] := by
    decide +kernel
  have unconcerned : ∀ word ∈ overdrawing.executed dice left,
      ¬ Trait.wrapsSprites.Concerns word := by
    simp only [words, List.forall_mem_cons, List.not_mem_nil, false_imp_iff, implies_true,
      and_true]
    decide
  obtain ⟨sameWords, sameResults, -, -, same⟩ :=
    trait_unnoticed overdrawing .wrapsSprites true dice operations unconcerned
  have refused : (overdrawing.run dice left).results.map Except.isOk =
      [true, true, false, true, true] := by
    decide +kernel
  refine ⟨unconcerned, words, sameWords, ?_, (same operations.length).2⟩
  rw [sameResults]
  exact refused

end Machine

end Chip8
