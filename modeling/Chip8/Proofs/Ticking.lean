import Chip8.Machine.Tick
import Chip8.Proofs.Execution

/-!
The five ways in which a tick can go, and a batch of ticks as one tick after another.
-/

namespace Chip8

def Dice.after (dice : Dice) (instruction : Instruction) : Dice :=
  if instruction.isRandom then dice.next else dice

namespace Machine

variable {machine : Machine} {dice : Dice} {word : UInt16}

/-! ### Fetching -/

/-- The program counter stands on a word inside memory, high byte first. -/
def Fetches (machine : Machine) (word : UInt16) : Prop :=
  machine.pc.toNat ≤ 0xffe ∧
    word.toNat = 256 * (machine.memory.byte machine.pc.toNat).toNat +
      (machine.memory.byte (machine.pc.toNat + 1)).toNat

instance (machine : Machine) (word : UInt16) : Decidable (machine.Fetches word) :=
  inferInstanceAs (Decidable (_ ∧ _))

private theorem inside_pc_iff (machine : Machine) :
    Memory.Inside machine.pc.toNat (machine.pc.toNat + 2) ↔ machine.pc.toNat ≤ 0xffe := by
  simp only [Memory.Inside, Memory.size]
  omega

theorem fetches_iff : machine.Fetches word ↔ machine.memory.word? machine.pc.toNat = some word := by
  unfold Memory.word?
  by_cases inside : machine.pc.toNat ≤ 0xffe
  · rw [if_pos ((inside_pc_iff machine).mpr inside), Option.some.injEq]
    constructor
    · intro fetched
      rcases fetched with ⟨-, value⟩
      apply UInt16.toNat.inj
      rw [Word.toNat_ofBytes, value]
    · rintro rfl
      exact ⟨inside, Word.toNat_ofBytes _ _⟩
  · rw [if_neg (mt (inside_pc_iff machine).mp inside)]
    simp [Fetches, inside]

theorem word?_pc_eq_none_iff :
    machine.memory.word? machine.pc.toNat = none ↔ 0xffe < machine.pc.toNat := by
  unfold Memory.word?
  by_cases inside : machine.pc.toNat ≤ 0xffe
  · rw [if_pos ((inside_pc_iff machine).mpr inside)]
    simp [inside]
  · rw [if_neg (mt (inside_pc_iff machine).mp inside)]
    simpa using inside

theorem Fetches.unique {other : UInt16} (first : machine.Fetches word)
    (second : machine.Fetches other) : word = other :=
  UInt16.toNat.inj (first.2.trans second.2.symm)

/-! ### One tick -/

def poised (machine : Machine) (word : UInt16) : Machine :=
  (machine.afterFetch word).countCycle

theorem toNat_pc_afterFetch (fetched : machine.Fetches word) :
    (machine.afterFetch word).pc.toNat = machine.pc.toNat + 2 := by
  have inside := fetched.1
  simp only [afterFetch, UInt16.toNat_add, UInt16.reduceToNat]
  omega

theorem toNat_pc_poised (fetched : machine.Fetches word) :
    (machine.poised word).pc.toNat = machine.pc.toNat + 2 :=
  toNat_pc_afterFetch fetched

/-- How a tick goes: it does nothing, finds no word, finds a word that is no instruction,
is refused by its instruction, or executes it. -/
inductive Ticks (machine : Machine) (dice : Dice) : Outcome Unit → Prop
  | idle (still : machine.isIdle = true) : Ticks machine dice (machine.start dice)
  | astray (outside : 0xffe < machine.pc.toNat) (busy : machine.isIdle = false) :
      Ticks machine dice
        { result := .error (.outOfBounds machine.pc.toNat machine.pc)
          machine, dice, trace := [] }
  | unknown (word : UInt16) (busy : machine.isIdle = false) (fetched : machine.Fetches word)
      (undecoded : Instruction.ofWord? word = none) :
      Ticks machine dice
        { result := .error (.unknownOpcode word machine.pc)
          machine := machine.afterFetch word
          dice := dice
          trace := (machine.afterFetch word).traceLines }
  | refused (word : UInt16) (instruction : Instruction) (fault : Fault)
      (busy : machine.isIdle = false) (fetched : machine.Fetches word)
      (decoded : Instruction.ofWord? word = some instruction)
      (refused : (machine.poised word).execute dice.roll instruction = .error fault) :
      Ticks machine dice
        { result := .error fault
          machine := machine.poised word
          dice := dice.after instruction
          trace := (machine.poised word).traceLines }
  | executed (word : UInt16) (instruction : Instruction) (after : Machine)
      (busy : machine.isIdle = false) (fetched : machine.Fetches word)
      (decoded : Instruction.ofWord? word = some instruction)
      (ran : (machine.poised word).execute dice.roll instruction = .ok after) :
      Ticks machine dice
        { result := .ok ()
          machine := after
          dice := dice.after instruction
          trace := (machine.poised word).traceLines }

theorem tick_of_astray (busy : machine.isIdle = false) (outside : 0xffe < machine.pc.toNat)
    (dice : Dice) :
    machine.tick dice =
      { result := .error (.outOfBounds machine.pc.toNat machine.pc)
        machine, dice, trace := [] } := by
  have found := word?_pc_eq_none_iff.mpr outside
  simp only [tick, busy, found, Bool.false_eq_true, if_false]

theorem tick_of_undecoded (busy : machine.isIdle = false) (fetched : machine.Fetches word)
    (undecoded : Instruction.ofWord? word = none) (dice : Dice) :
    machine.tick dice =
      { result := .error (.unknownOpcode word machine.pc)
        machine := machine.afterFetch word
        dice := dice
        trace := (machine.afterFetch word).traceLines } := by
  have found := fetches_iff.mp fetched
  simp only [tick, busy, found, undecoded, Bool.false_eq_true, if_false]

theorem tick_of_decoded {instruction : Instruction} (busy : machine.isIdle = false)
    (fetched : machine.Fetches word) (decoded : Instruction.ofWord? word = some instruction)
    (dice : Dice) :
    machine.tick dice = (machine.afterFetch word).perform dice instruction := by
  have found := fetches_iff.mp fetched
  simp only [tick, busy, found, decoded, Bool.false_eq_true, if_false]

theorem tick_of_refused {instruction : Instruction} {fault : Fault}
    (busy : machine.isIdle = false) (fetched : machine.Fetches word)
    (decoded : Instruction.ofWord? word = some instruction)
    (refused : (machine.poised word).execute dice.roll instruction = .error fault) :
    machine.tick dice =
      { result := .error fault
        machine := machine.poised word
        dice := dice.after instruction
        trace := (machine.poised word).traceLines } := by
  unfold poised at refused
  rw [tick_of_decoded busy fetched decoded, perform]
  simp only [refused]
  rfl

theorem tick_of_obstacle {instruction : Instruction} {fault : Fault}
    (busy : machine.isIdle = false) (fetched : machine.Fetches word)
    (decoded : Instruction.ofWord? word = some instruction)
    (obstacle : Obstacle (machine.poised word) instruction fault) (dice : Dice) :
    (machine.tick dice).result = .error fault ∧
      (machine.tick dice).machine = machine.poised word := by
  rw [tick_of_refused busy fetched decoded (execute_eq_error_iff.mpr obstacle)]
  exact ⟨rfl, rfl⟩

theorem tick_of_executed {instruction : Instruction} {after : Machine}
    (busy : machine.isIdle = false) (fetched : machine.Fetches word)
    (decoded : Instruction.ofWord? word = some instruction)
    (ran : (machine.poised word).execute dice.roll instruction = .ok after) :
    machine.tick dice =
      { result := .ok ()
        machine := after
        dice := dice.after instruction
        trace := (machine.poised word).traceLines } := by
  unfold poised at ran
  rw [tick_of_decoded busy fetched decoded, perform]
  simp only [ran]
  rfl

theorem ticks_tick (machine : Machine) (dice : Dice) :
    Ticks machine dice (machine.tick dice) := by
  cases busy : machine.isIdle with
  | true =>
      have stays : machine.tick dice = machine.start dice := if_pos busy
      rw [stays]
      exact .idle busy
  | false =>
      cases found : machine.memory.word? machine.pc.toNat with
      | none =>
          have outside := word?_pc_eq_none_iff.mp found
          rw [tick_of_astray busy outside]
          exact .astray outside busy
      | some word =>
          have fetched := fetches_iff.mpr found
          cases decoded : Instruction.ofWord? word with
          | none =>
              rw [tick_of_undecoded busy fetched decoded]
              exact .unknown word busy fetched decoded
          | some instruction =>
              cases ran : (machine.poised word).execute dice.roll instruction with
              | error fault =>
                  rw [tick_of_refused busy fetched decoded ran]
                  exact .refused word instruction fault busy fetched decoded ran
              | ok after =>
                  rw [tick_of_executed busy fetched decoded ran]
                  exact .executed word instruction after busy fetched decoded ran

/-- The next tick executes the instruction of a word. -/
def Executes (machine : Machine) (dice : Dice) (word : UInt16) : Prop :=
  machine.isIdle = false ∧ machine.Fetches word ∧ (machine.tick dice).result = .ok ()

theorem Executes.exists_ran (executes : machine.Executes dice word) :
    ∃ instruction after, Instruction.ofWord? word = some instruction ∧
      (machine.poised word).execute dice.roll instruction = .ok after ∧
      (machine.tick dice).machine = after := by
  obtain ⟨busy, fetched, succeeded⟩ := executes
  cases decoded : Instruction.ofWord? word with
  | none =>
      rw [tick_of_undecoded busy fetched decoded] at succeeded
      cases succeeded
  | some instruction =>
      cases ran : (machine.poised word).execute dice.roll instruction with
      | error fault =>
          rw [tick_of_refused busy fetched decoded ran] at succeeded
          cases succeeded
      | ok after =>
          rw [tick_of_executed busy fetched decoded ran]
          exact ⟨instruction, after, rfl, ran, rfl⟩

theorem failed_eq_false_iff {outcome : Outcome Unit} :
    outcome.failed = false ↔ outcome.result = .ok () := by
  rcases outcome with ⟨⟨result, machine⟩, dice, trace⟩
  cases result with
  | error fault => exact ⟨nofun, nofun⟩
  | ok value => exact ⟨fun _ => rfl, fun _ => rfl⟩

instance (machine : Machine) (dice : Dice) (word : UInt16) :
    Decidable (machine.Executes dice word) :=
  decidable_of_iff
    (machine.isIdle = false ∧ machine.Fetches word ∧ (machine.tick dice).failed = false)
    (and_congr_right fun _ => and_congr_right fun _ => failed_eq_false_iff)

end Machine

end Chip8
