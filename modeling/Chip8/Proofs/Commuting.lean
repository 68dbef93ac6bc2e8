import Chip8.Proofs.Consulting
import Chip8.Proofs.KeyWaits
import Chip8.Proofs.TimerSchedules
import Chip8.Proofs.Tones

/-!
Operations that do not mind their order. A tick, a timer decrement and a change of a key come
from three parties that take no turns. Two of them that come next to each other leave the same
and answer the same in either order, unless the tick uses what the other operation changes.
-/

namespace Chip8

/-! ### What an instruction uses -/

namespace Word

/-- Words of the instructions that read or set a timer. -/
def UsesTimers (word : UInt16) : Prop :=
  OnRegister word 0xf 0x07 ∨ OnRegister word 0xf 0x15 ∨ OnRegister word 0xf 0x18

/-- Words of the instructions that look at a key or wait for one. -/
def UsesKeys (word : UInt16) : Prop :=
  OnRegister word 0xe 0x9e ∨ OnRegister word 0xe 0xa1 ∨ OnRegister word 0xf 0x0a

instance (word : UInt16) : Decidable (UsesTimers word) :=
  inferInstanceAs (Decidable ((_ ∧ _) ∨ (_ ∧ _) ∨ (_ ∧ _)))

instance (word : UInt16) : Decidable (UsesKeys word) :=
  inferInstanceAs (Decidable ((_ ∧ _) ∨ (_ ∧ _) ∨ (_ ∧ _)))

private theorem usesTimers_of_sets {word : UInt16} {timer : Timer} (sets : timer.Sets word) :
    UsesTimers word := by
  cases timer with
  | delay => exact .inr (.inl sets)
  | sound => exact .inr (.inr sets)

end Word

private theorem usesKeys_of_consultsKeys {word : UInt16} {instruction : Instruction}
    (decoded : Instruction.ofWord? word = some instruction)
    (consults : instruction.consultsKeys = true) : Word.UsesKeys word := by
  cases instruction with
  | register op x =>
      cases op with
      | skipHeld =>
          obtain ⟨first, last, -⟩ := (Instruction.ofWord?_eq_register_iff 0xe 0x9 0xe
            (by decide) (by decide) rfl).mp decoded
          exact .inl ⟨first, last⟩
      | skipReleased =>
          obtain ⟨first, last, -⟩ := (Instruction.ofWord?_eq_register_iff 0xe 0xa 0x1
            (by decide) (by decide) rfl).mp decoded
          exact .inr (.inl ⟨first, last⟩)
      | _ => nomatch consults
  | _ => nomatch consults

namespace Machine

variable {machine : Machine} {dice : Dice} {key : Nat} {pressed : Bool}

/-- The next tick executes an instruction that uses a timer. -/
def heedsTimers (machine : Machine) (dice : Dice) : Bool :=
  (machine.executes? dice).any fun word => decide (Word.UsesTimers word)

/-- The machine is not paused, and it waits for a key or its next tick executes an instruction that
uses keys. -/
def heedsKeys (machine : Machine) (dice : Dice) : Bool :=
  !machine.settings.paused && (machine.isAwaitingKey ||
    (machine.executes? dice).any fun word => decide (Word.UsesKeys word))

/-! ### Either order -/

/-- Two operations leave the same machine, dice and lines in either order, and each of them
answers the same. -/
structure Commutes (machine : Machine) (dice : Dice) (first second : Operation) : Prop where
  remains : (machine.run dice [second, first]).remains =
    (machine.run dice [first, second]).remains
  results : (machine.run dice [second, first]).results =
    (machine.run dice [first, second]).results.reverse

def Quiet (request : Operation) : Prop :=
  ∀ (machine : Machine) (dice : Dice),
    (request.apply machine dice).dice = dice ∧ (request.apply machine dice).trace = []

private theorem quiet_decrementTimers : Quiet .decrementTimers := fun _ _ => ⟨rfl, rfl⟩

theorem quiet_changeKey (key : Nat) (pressed : Bool) : Quiet (.changeKey key pressed) :=
  fun _ _ => ⟨rfl, rfl⟩

/-- It is enough that the request answers after the operation as before it, and that after the
request the operation goes as it would have gone, but for the machine that the request would
have left. -/
theorem commutes_of_quiet {operation request : Operation} (quiet : Quiet request)
    (answers : (request.apply (operation.apply machine dice).machine
        (operation.apply machine dice).dice).result = (request.apply machine dice).result)
    (swapped : operation.apply (request.apply machine dice).machine dice =
      { operation.apply machine dice with
        machine := (request.apply (operation.apply machine dice).machine
          (operation.apply machine dice).dice).machine }) :
    Commutes machine dice operation request := by
  obtain ⟨rolledFirst, toldFirst⟩ := quiet machine dice
  obtain ⟨rolledLast, toldLast⟩ := quiet (operation.apply machine dice).machine
    (operation.apply machine dice).dice
  constructor
  · simp only [run, History.remains, rolledFirst, toldFirst, rolledLast, toldLast, swapped,
      List.nil_append, List.append_nil]
  · simp only [run, rolledFirst, swapped, answers, List.reverse_cons, List.reverse_nil,
      List.nil_append, List.singleton_append]

/-! ### Timers -/

private theorem eq_decrementTimers {first second : Machine} (same : first.SameButTimers second)
    (counted : ∀ timer : Timer, timer.reading second = countDown (timer.reading first)) :
    second = first.decrementTimers := by
  obtain ⟨delay, sound, rfl⟩ := same
  have delays : delay = countDown first.delay := counted .delay
  have sounds : sound = countDown first.sound := counted .sound
  rw [delays, sounds]
  rfl

theorem reading_apply {operation : Operation} (timer : Timer)
    (single : ∀ count, operation ≠ .multistep count) (other : operation ≠ .decrementTimers)
    (kept : operation.keepsProgram = true)
    (unused : ∀ word ∈ operation.executed machine dice, ¬ Word.UsesTimers word) :
    timer.reading (operation.apply machine dice).machine = timer.reading machine := by
  have moves : Step.Moves timer ⟨operation, machine, dice⟩ := Step.moves single kept timer
  cases moves with
  | kept _ same => exact same
  | set word executed sets read =>
      obtain ⟨ticks, executes⟩ := Step.executes?_eq_some_iff.mp executed
      simp only at ticks executes
      subst ticks
      refine absurd (Word.usesTimers_of_sets sets) (unused word ?_)
      exact Option.mem_toList.mpr (executes?_eq_some_iff.mpr executes)
  | counted decrements down => exact absurd decrements other

theorem commutes_decrementTimers {operation : Operation}
    (single : ∀ count, operation ≠ .multistep count) (other : operation ≠ .decrementTimers)
    (kept : operation.keepsProgram = true)
    (unused : ∀ word ∈ operation.executed machine dice, ¬ Word.UsesTimers word) :
    Commutes machine dice operation .decrementTimers := by
  obtain ⟨agrees, sameWords⟩ := agrees_apply machine.sameButTimers_decrementTimers other
    fun word executed reads => unused word executed (.inl reads)
  have before (timer : Timer) :
      timer.reading (operation.apply machine dice).machine = timer.reading machine :=
    reading_apply timer single other kept unused
  have after (timer : Timer) :
      timer.reading (operation.apply machine.decrementTimers dice).machine =
        timer.reading machine.decrementTimers :=
    reading_apply timer single other kept (sameWords ▸ unused)
  have counted (timer : Timer) :
      timer.reading (operation.apply machine.decrementTimers dice).machine =
        countDown (timer.reading (operation.apply machine dice).machine) := by
    rw [before, after]
    cases timer <;> rfl
  have silent : (operation.apply machine dice).machine.sound = machine.sound := before .sound
  refine commutes_of_quiet quiet_decrementTimers ?_ ?_
  · exact congrArg (fun sound : UInt8 => Except.ok (Answer.yesNo (sound == 1))) silent
  · exact agrees.eq_with_machine tellsAlike_timers (eq_decrementTimers agrees.machine counted)

/-! ### Keys -/

def SameButKey (key : Nat) (pressed : Bool) (first second : Machine) : Prop :=
  second = { first with keypad := first.keypad.set key pressed }

private theorem exists_ran_of_consultsKeys {instruction : Instruction}
    (consults : instruction.consultsKeys = true) (machine : Machine) (roll : UInt8) :
    ∃ after, machine.execute roll instruction = .ok after := by
  cases instruction with
  | register op x =>
      cases op with
      | skipHeld => exact ⟨_, rfl⟩
      | skipReleased => exact ⟨_, rfl⟩
      | _ => nomatch consults
  | _ => nomatch consults

private theorem executesAlike_key (key : Nat) (pressed : Bool) :
    ExecutesAlike (SameButKey key pressed) fun word => ¬ Word.UsesKeys word := by
  rintro first _ word instruction roll rfl decoded harmless
  have unread : instruction.consultsKeys = false := by
    refine Bool.eq_false_iff.mpr fun consults => ?_
    obtain ⟨after, ran⟩ := exists_ran_of_consultsKeys consults first roll
    exact harmless after ran (usesKeys_of_consultsKeys decoded consults)
  rw [execute_withKeys first (first.keypad.set key pressed) roll unread]
  cases ran : first.execute roll instruction with
  | error fault => exact .refused fault
  | ok after =>
      have keypad : after.keypad = first.keypad :=
        congrArg Setting.keypad (effect_of_execute ran).setting
      refine .executed ?_
      rw [SameButKey, keypad]

private theorem fetchesAlike_key (key : Nat) (pressed : Bool) :
    FetchesAlike (SameButKey key pressed) where
  isIdle := by
    rintro first _ rfl
    rfl
  pc := by
    rintro first _ rfl
    rfl
  memory := by
    rintro first _ rfl
    rfl
  afterFetch := by
    rintro first _ rfl word
    rfl
  countCycle := by
    rintro first _ rfl
    rfl

private theorem tellsAlike_key (key : Nat) (pressed : Bool) :
    TellsAlike (SameButKey key pressed) := by
  rintro first _ rfl
  rfl

theorem running_tick (running : machine.state = .running)
    (unused : ∀ word, machine.Executes dice word → ¬ Word.UsesKeys word) :
    (machine.tick dice).machine.state = .running ∧
      (machine.tick dice).machine.keypad = machine.keypad := by
  rcases machine.tick_passes_or_touches dice with ⟨pc, drawn, fetched, cycle, passed⟩ |
    ⟨word, executes, touches⟩
  · rw [passed]
    exact ⟨running, rfl⟩
  · have kept := touches.state.resolve_right fun waits =>
      unused word executes (.inr (.inr waits))
    exact ⟨kept.trans running, touches.keypad⟩

theorem apply_changeKey_of_running (running : machine.state = .running) (present : key < 16)
    (pressed : Bool) (dice : Dice) :
    Operation.apply (.changeKey key pressed) machine dice =
      { result := .ok (.yesNo (machine.keypad.isHeld key != pressed))
        machine := { machine with keypad := machine.keypad.set key pressed }
        dice := dice
        trace := [] } := by
  have counted : key < Keypad.count := present
  rw [Operation.apply, changeKey, if_pos counted]
  cases pressed with
  | false => rfl
  | true =>
      rw [running]
      rfl

theorem apply_tick_of_idle (still : machine.isIdle = true) (dice : Dice) :
    Operation.apply .tick machine dice =
      { result := .ok .done, machine, dice, trace := [] } := by
  rw [Operation.apply, tick_of_idle still]
  rfl

private theorem commutes_tick_changeKey_of_running (running : machine.state = .running)
    (unused : ∀ word, machine.executes? dice = some word → ¬ Word.UsesKeys word)
    (present : key < 16) (pressed : Bool) :
    Commutes machine dice .tick (.changeKey key pressed) := by
  have switched := apply_changeKey_of_running running present pressed dice
  obtain ⟨stays, keypad⟩ := running_tick running fun word executes =>
    unused word (executes?_eq_some_iff.mpr executes)
  have switchedLater := apply_changeKey_of_running stays present pressed (machine.tick dice).dice
  obtain ⟨agrees, -⟩ := (executesAlike_key key pressed).ticksAlike (fetchesAlike_key key pressed)
    machine _ dice rfl unused
  refine commutes_of_quiet (quiet_changeKey key pressed) ?_ ?_
  · change (Operation.apply (.changeKey key pressed) (machine.tick dice).machine
      (machine.tick dice).dice).result = _
    rw [switchedLater, switched, keypad]
  · change _ = { Operation.apply .tick machine dice with
      machine := (Operation.apply (.changeKey key pressed) (machine.tick dice).machine
        (machine.tick dice).dice).machine }
    rw [switchedLater, switched]
    exact (agrees.map _).eq_with_machine (tellsAlike_key key pressed) agrees.machine

private theorem commutes_tick_changeKey_of_paused (paused : machine.settings.paused = true)
    (key : Nat) (pressed : Bool) : Commutes machine dice .tick (.changeKey key pressed) := by
  have ticked := apply_tick_of_idle (isIdle_of_paused paused) dice
  have stays : (Operation.apply (.changeKey key pressed) machine dice).machine.isIdle = true :=
    isIdle_of_paused (((changeKey_indifferent key pressed).kept machine).1 ▸ paused)
  refine commutes_of_quiet (quiet_changeKey key pressed) ?_ ?_
  · rw [ticked]
  · rw [ticked, apply_tick_of_idle stays]

private theorem commutes_changeKey_of_missing {operation : Operation} (missing : 16 ≤ key)
    (pressed : Bool) : Commutes machine dice operation (.changeKey key pressed) := by
  refine commutes_of_quiet (quiet_changeKey key pressed) ?_ ?_
  · rw [apply_changeKey_of_missing missing, apply_changeKey_of_missing missing]
  · rw [apply_changeKey_of_missing missing, apply_changeKey_of_missing missing]

/-! ### The three operations -/

theorem Commutes.symm {first second : Operation} (commutes : Commutes machine dice first second) :
    Commutes machine dice second first := by
  refine ⟨commutes.remains.symm, ?_⟩
  rw [commutes.results, List.reverse_reverse]

/-- A tick commutes with a timer decrement unless it executes an instruction that uses a timer,
and with a change of any key unless the machine, not being paused, waits for a key or is about to
execute an instruction that uses keys. A timer decrement and a change of a key always commute. -/
theorem independent_operations_commute (machine : Machine) (dice : Dice) :
    (machine.heedsTimers dice = false → Commutes machine dice .tick .decrementTimers) ∧
      (∀ key pressed, machine.heedsKeys dice = false →
        Commutes machine dice .tick (.changeKey key pressed)) ∧
      ∀ key pressed, Commutes machine dice .decrementTimers (.changeKey key pressed) := by
  refine ⟨fun heedless => ?_, fun key pressed heedless => ?_, fun key pressed => ?_⟩
  · refine commutes_decrementTimers nofun nofun rfl fun word executed uses => ?_
    have ran : machine.executes? dice = some word := Option.mem_toList.mp executed
    rw [heedsTimers, ran, Option.any_some, decide_eq_false_iff_not] at heedless
    exact heedless uses
  · by_cases present : key < 16
    · cases paused : machine.settings.paused with
      | true => exact commutes_tick_changeKey_of_paused paused key pressed
      | false =>
          rw [heedsKeys, paused, Bool.not_false, Bool.true_and, Bool.or_eq_false_iff] at heedless
          obtain ⟨active, unasked⟩ := heedless
          have busy : machine.isIdle = false := isIdle_eq_false_iff.mpr ⟨paused, active⟩
          refine commutes_tick_changeKey_of_running (running_of_busy busy) ?_ present pressed
          intro word ran
          rw [ran, Option.any_some, decide_eq_false_iff_not] at unasked
          exact unasked
    · exact commutes_changeKey_of_missing (Nat.le_of_not_lt present) pressed
  · have commutes : Commutes machine dice (.changeKey key pressed) .decrementTimers :=
      commutes_decrementTimers nofun nofun rfl nofun
    exact commutes.symm

def lastReturn : Machine :=
  { standard with
    memory := Memory.zeroed.store 0x200 [0x00, 0xee]
    sound := 1 }

/-- The refusal and the end of the tone come in either order, and so do the refusal and the press
of a key that does not exist. -/
theorem lastReturn_commutes :
    let dice : Dice := { source := fun _ => 0, taken := 0 }
    lastReturn.heedsTimers dice = false ∧ lastReturn.heedsKeys dice = false ∧
      (lastReturn.run dice [.decrementTimers, .tick]).results =
        [.ok (.yesNo true), .error (.stackUnderflow 0x00ee 0x200)] ∧
      (lastReturn.run dice [.changeKey 16 true, .tick]).results =
        [.error (.noSuchKey 16), .error (.stackUnderflow 0x00ee 0x200)] := by
  intro dice
  have timers : lastReturn.heedsTimers dice = false := by decide +kernel
  have keys : lastReturn.heedsKeys dice = false := by decide +kernel
  have refused : (lastReturn.poised 0x00ee).execute dice.roll (.bare .ret) =
      .error (.stackUnderflow 0x00ee 0x200) :=
    execute_eq_error_iff.mpr (.underflow rfl)
  have fetched : lastReturn.Fetches 0x00ee := by decide +kernel
  have ticked := tick_of_refused rfl fetched rfl refused
  obtain ⟨decrements, changes, -⟩ := lastReturn.independent_operations_commute dice
  refine ⟨timers, keys, ?_, ?_⟩
  · rw [(decrements timers).results]
    simp only [run, Operation.apply, ticked]
    rfl
  · rw [(changes 16 true keys).results]
    simp only [run, Operation.apply, ticked]
    rfl

end Machine

end Chip8
