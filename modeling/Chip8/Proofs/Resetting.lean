import Chip8.Proofs.Footprints
import Chip8.Proofs.Loading
import Chip8.Proofs.Steps

/-!
What a reset brings back. Two instructions write memory, and nothing else does: no other
instruction, no refused one and no request of the host short of a load. So a reset after a run
gives the machine as it was right after the load, but for the settings, which are the host's, and
for the bytes in the ranges that those two instructions stored to.
-/

namespace Chip8

/-- The words of the instructions that store to memory. -/
def Word.Stores (word : UInt16) : Prop := OnRegister word 0xf 0x33 ∨ OnRegister word 0xf 0x55

instance (word : UInt16) : Decidable (Word.Stores word) :=
  inferInstanceAs (Decidable ((_ ∧ _) ∨ (_ ∧ _)))

theorem Word.StoresAt.stores {index : Nat} {word : UInt16} {address : Nat}
    (stored : StoresAt index word address) : Stores word :=
  stored.imp And.left And.left

/-- A step executes an instruction that stores to an address. -/
def Step.StoresAt (step : Step) (address : Nat) : Prop :=
  ∃ word, step.executes? = some word ∧ Word.StoresAt step.machine.index.toNat word address

namespace Machine

variable {machine : Machine} {dice : Dice} {operations : List Operation} {program : List UInt8}

/-! ### One step -/

structure Spares (step : Step) : Prop where
  font : step.outcome.machine.font = step.machine.font
  disassembler : step.outcome.machine.disassembler = step.machine.disassembler
  byte : ∀ address,
    step.outcome.machine.memory.byte address = step.machine.memory.byte address ∨
      step.StoresAt address

theorem spares_of_same {step : Step} (font : step.outcome.machine.font = step.machine.font)
    (disassembler : step.outcome.machine.disassembler = step.machine.disassembler)
    (memory : step.outcome.machine.memory = step.machine.memory) : Spares step :=
  ⟨font, disassembler, fun address => .inl (congrArg (·.byte address) memory)⟩

private theorem spares_tick (machine : Machine) (dice : Dice) : Spares ⟨.tick, machine, dice⟩ := by
  rcases machine.tick_passes_or_touches dice with ⟨pc, drawn, fetched, cycle, passed⟩ |
    ⟨word, executes, touches⟩
  · have left : (⟨.tick, machine, dice⟩ : Step).outcome.machine =
        { machine with pc, drawn, fetched, cycle } := passed
    refine spares_of_same ?_ ?_ ?_ <;> rw [left]
  · have executed : (⟨.tick, machine, dice⟩ : Step).executes? = some word :=
      Step.executes?_eq_some_iff.mpr ⟨rfl, executes⟩
    exact
      { font := touches.font
        disassembler := touches.disassembler
        byte := fun address => (touches.memory address).imp_right
          fun stored => ⟨word, executed, stored⟩ }

theorem spares_step {step : Step} (single : ∀ count, step.operation ≠ .multistep count)
    (kept : ∀ program, step.operation ≠ .load program) : Spares step := by
  rcases step with ⟨operation, machine, dice⟩
  cases operation with
  | load program => exact absurd rfl (kept program)
  | multistep count => exact absurd rfl (single count)
  | tick => exact spares_tick machine dice
  | changeKey key pressed =>
      obtain ⟨keypad, registers, state, changed⟩ := machine.exists_changeKey key pressed
      have left : (⟨.changeKey key pressed, machine, dice⟩ : Step).outcome.machine =
          { machine with keypad, registers, state } := changed
      refine spares_of_same ?_ ?_ ?_ <;> rw [left]
  | setRegister register value =>
      obtain ⟨registers, changed⟩ := machine.exists_setRegister register value
      have left : (⟨.setRegister register value, machine, dice⟩ : Step).outcome.machine =
          { machine with registers } := changed
      refine spares_of_same ?_ ?_ ?_ <;> rw [left]
  | reset => exact spares_of_same rfl rfl rfl
  | decrementTimers => exact spares_of_same rfl rfl rfl
  | choose settings => exact spares_of_same rfl rfl rfl

/-! ### A whole run -/

section

variable (kept : ∀ operation ∈ operations, ∀ program, operation ≠ .load program)

include kept

theorem spares_of_mem {step : Step} (member : step ∈ machine.singleSteps dice operations) :
    Spares step :=
  spares_step (single_of_mem member)
    (holds_of_mem (fun operation => ∀ program, operation ≠ .load program) nofun kept member)

private theorem fixtures_run :
    (machine.run dice operations).machine.font = machine.font ∧
      (machine.run dice operations).machine.disassembler = machine.disassembler := by
  refine (singleSteps_keep (fun reached => reached.font = machine.font ∧
    reached.disassembler = machine.disassembler) (fun step member before => ?_) ⟨rfl, rfl⟩).2
  have spares := spares_of_mem kept member
  exact ⟨spares.font.trans before.1, spares.disassembler.trans before.2⟩

/-- A byte is what it was, unless a step of the run stored to its address. -/
theorem byte_run (address : Nat) :
    (machine.run dice operations).machine.memory.byte address = machine.memory.byte address ∨
      ∃ step ∈ machine.singleSteps dice operations, step.StoresAt address := by
  by_cases stored : ∃ step ∈ machine.singleSteps dice operations, step.StoresAt address
  · exact .inr stored
  · refine .inl (singleSteps_keep
      (fun reached => reached.memory.byte address = machine.memory.byte address)
      (fun step member before => ?_) rfl).2
    have spared := ((spares_of_mem kept member).byte address).resolve_right
      fun storedHere => stored ⟨step, member, storedHere⟩
    exact spared.trans before

private theorem memory_run
    (unstored : ∀ word ∈ machine.executed dice operations, ¬ Word.Stores word) :
    (machine.run dice operations).machine.memory = machine.memory := by
  refine Memory.ext_byte fun address _ => (byte_run kept address).resolve_right ?_
  rintro ⟨step, member, word, executed, stored⟩
  exact unstored word (mem_executed_iff.mpr ⟨step, member, executed⟩) stored.stores

end

theorem reset_eq_loaded {after : Machine} (font : after.font = machine.font)
    (disassembler : after.disassembler = machine.disassembler) :
    after.reset =
      { machine.loaded program with settings := after.settings, memory := after.memory } := by
  simp only [reset, loaded, empty, font, disassembler]

/-- After a run from a program just loaded, with batches, keys, timers, resets and other settings
in any order and with any faults, a reset gives the machine that the load gave but for the
settings. Memory is the same except in the ranges that executed instructions stored to, and the
same everywhere if none stored. -/
theorem reset_restores_load (reachable : machine.Reachable) (fits : program.length ≤ 3584)
    (dice : Dice) (kept : ∀ operation ∈ operations, ∀ other, operation ≠ .load other) :
    let fresh := (machine.load program).machine
    let after := (fresh.run dice operations).machine
    let again := after.reset
    (machine.load program).result = .ok () ∧
      again = { fresh with settings := after.settings, memory := again.memory } ∧
      (∀ address, again.memory.byte address = fresh.memory.byte address ∨
        ∃ step ∈ fresh.singleSteps dice operations, step.StoresAt address) ∧
      ((∀ word ∈ fresh.executed dice operations, ¬ Word.Stores word) →
        again = { fresh with settings := after.settings }) := by
  intro fresh after again
  have loads := load_of_fitting reachable.sound.font fits
  have begun : fresh = machine.loaded program := congrArg Reply.machine loads
  have fixtures : after.font = fresh.font ∧ after.disassembler = fresh.disassembler :=
    fixtures_run kept
  obtain ⟨font, disassembler⟩ := fixtures
  have restored : again = { fresh with settings := after.settings, memory := again.memory } := by
    have sameFont : after.font = machine.font := by
      rw [font, begun, font_loaded]
    have sameDisassembler : after.disassembler = machine.disassembler := by
      rw [disassembler, begun]
      simp only [loaded, reset, empty]
    rw [begun]
    exact reset_eq_loaded sameFont sameDisassembler
  refine ⟨by rw [loads], restored, fun address => byte_run kept address, fun unstored => ?_⟩
  have memory : again.memory = fresh.memory := memory_run kept unstored
  rw [restored, memory]

def hesitant : List UInt8 := [0x61, 0x05, 0xaf, 0xff, 0xf1, 0x55, 0xf1, 0x18, 0xf0, 0x0a]

/-- The store is refused, so that a reset in the middle of the wait leaves nothing of the run but
the host's settings. -/
theorem hesitant_reset_as_loaded :
    let dice : Dice := { source := fun _ => 0, taken := 0 }
    let operations : List Operation :=
      [.multistep 3, .changeKey 7 true, .choose { Settings.standard with traces := true },
        .decrementTimers, .multistep 9, .decrementTimers]
    let fresh := (standard.load hesitant).machine
    let after := (fresh.run dice operations).machine
    standard.Reachable ∧ hesitant.length ≤ 3584 ∧
      (∀ operation ∈ operations, ∀ other, operation ≠ .load other) ∧
      fresh.executed dice operations = [0x6105, 0xafff, 0xf118, 0xf00a] ∧
      after.isAwaitingKey = true ∧ after.sound = 4 ∧ after.keypad.held = [7] ∧
      after.reset = { fresh with settings := { Settings.standard with traces := true } } := by
  intro dice operations fresh after
  have reachable : standard.Reachable := .fresh .standard
  have fits : hesitant.length ≤ 3584 := by decide
  have kept : ∀ operation ∈ operations, ∀ other, operation ≠ .load other := by
    simp [operations]
  have words : fresh.executed dice operations = [0x6105, 0xafff, 0xf118, 0xf00a] := by
    decide +kernel
  have unstored : ∀ word ∈ fresh.executed dice operations, ¬ Word.Stores word := by
    simp only [words, List.forall_mem_cons, List.not_mem_nil, false_imp_iff, implies_true,
      and_true]
    decide
  have seen : after.isAwaitingKey = true ∧ after.sound = 4 ∧ after.keypad.held = [7] ∧
      after.settings = { Settings.standard with traces := true } := by
    decide +kernel
  obtain ⟨waits, sound, held, settings⟩ := seen
  obtain ⟨-, -, -, restored⟩ := reset_restores_load reachable fits dice kept
  refine ⟨reachable, fits, kept, words, waits, sound, held, ?_⟩
  rw [← settings]
  exact restored unstored

end Machine

end Chip8
