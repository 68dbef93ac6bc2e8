import Chip8.Proofs.Batches
import Chip8.Proofs.Invariant
import Chip8.Runner

/-!
The loop that runs a program up to a limit. An iteration either executes one instruction or
ends the loop, so the limit bounds the iterations. Where no key answers a wait, the loop does
what one batch of ticks does; where a key does, a wait is over before the next instruction,
with the key stored and let go.
-/

namespace Chip8

private theorem Keypad.set_set (keypad : Keypad) (key : Nat) (earlier later : Bool) :
    (keypad.set key earlier).set key later = keypad.set key later := by
  apply Keypad.ext_isHeld
  intro other inside
  rw [isHeld_set, isHeld_set, isHeld_set]
  by_cases same : other = key ∧ key < count
  · rw [if_pos same, if_pos same]
  · rw [if_neg same, if_neg same, if_neg same]

namespace Runner

def Ending.result : Ending → Except Fault Unit
  | .limitReached => .ok ()
  | .noKey => .ok ()
  | .failed fault => .error fault

/-- A run that has not failed, of a machine that is sound and not paused. -/
structure Live (run : Outcome Unit) : Prop where
  succeeded : run.result = .ok ()
  unpaused : run.machine.settings.paused = false
  sound : run.machine.Sound

/-! ### One tick of the loop -/

/-- How the tick of an iteration goes: it fails and ends the loop, or it executes one
instruction and the run is alive after it. -/
inductive TicksOnce (run : Outcome Unit) : Progress → Prop
  | fails (fault : Fault) (failed : run.tick.result = .error fault) :
      TicksOnce run { run := run.tick, ending := some (.failed fault) }
  | executes (word : UInt16) (executes : run.machine.Executes run.dice word)
      (counted : run.tick.machine.cycle = run.machine.cycle + 1) (live : Live run.tick) :
      TicksOnce run { run := run.tick, ending := none }

theorem ticksOnce_tickOnce {run : Outcome Unit} (live : Live run)
    (active : run.machine.isAwaitingKey = false) : TicksOnce run (tickOnce run) := by
  cases result : run.tick.result with
  | error fault =>
      have ended : tickOnce run = { run := run.tick, ending := some (.failed fault) } := by
        simp only [tickOnce, result]
      rw [ended]
      exact .fails fault result
  | ok value =>
      have goesOn : tickOnce run = { run := run.tick, ending := none } := by
        simp only [tickOnce, result]
      have busy := Machine.isIdle_eq_false_iff.mpr ⟨live.unpaused, active⟩
      obtain ⟨word, executes⟩ := Machine.exists_executes busy result
      rw [goesOn]
      refine .executes word executes (Machine.cycle_of_executes executes) ⟨result, ?_, ?_⟩
      · have kept := Machine.settings_tick run.machine run.dice
        exact (congrArg Settings.paused kept).trans live.unpaused
      · exact live.sound.tick run.dice

/-! ### Waits that no key answers -/

def refusal : Option Nat → Ending
  | none => .noKey
  | some key => .failed (.noSuchKey key)

private theorem advance_of_unanswered {key : Option Nat}
    (missing : ∀ number, key = some number → 16 ≤ number) {run : Outcome Unit}
    (awaiting : run.machine.isAwaitingKey = true) :
    advance key run = { run, ending := some (refusal key) } := by
  cases key with
  | none => simp only [advance, awaiting, if_true, refusal]
  | some number =>
      have refused : run.machine.changeKey number true =
          { result := .error (.noSuchKey number), machine := run.machine } :=
        Machine.changeKey_of_missing (missing number rfl) true
      simp only [advance, awaiting, if_true, tap, refused, refusal]

theorem advance_of_active (key : Option Nat) {run : Outcome Unit}
    (active : run.machine.isAwaitingKey = false) : advance key run = tickOnce run := by
  simp only [advance, active, Bool.false_eq_true, if_false]

/-- How the loop ends with a run that stopped by itself or came to the limit. -/
def endingOf (limit : Nat) (key : Option Nat) (run : Outcome Unit) : Ending :=
  match run.result with
  | .error fault => .failed fault
  | .ok () =>
      if run.machine.isAwaitingKey = true ∧ run.machine.cycle < limit then refusal key
      else .limitReached

private theorem endingOf_of_reached {limit : Nat} {key : Option Nat} {run : Outcome Unit}
    (live : Live run) (reached : limit ≤ run.machine.cycle) :
    endingOf limit key run = .limitReached := by
  have above : ¬ (run.machine.isAwaitingKey = true ∧ run.machine.cycle < limit) :=
    fun both => Nat.not_lt_of_le reached both.2
  simp only [endingOf, live.succeeded, if_neg above]

private theorem limitReached_eq {limit : Nat} {key : Option Nat} {run : Outcome Unit}
    (live : Live run) (reached : limit ≤ run.machine.cycle) :
    (run, Ending.limitReached) =
      (run.multistep (limit - run.machine.cycle),
        endingOf limit key (run.multistep (limit - run.machine.cycle))) := by
  rw [Nat.sub_eq_zero_of_le reached, Outcome.multistep, endingOf_of_reached live reached]

/-- Without an answer to waits the loop is one batch of as many ticks as are left. -/
theorem finish?_of_unanswered {limit : Nat} {key : Option Nat}
    (missing : ∀ number, key = some number → 16 ≤ number) {iterations : Nat}
    {run : Outcome Unit} (live : Live run) (enough : limit ≤ run.machine.cycle + iterations) :
    finish? limit key iterations run =
      some (run.multistep (limit - run.machine.cycle),
        endingOf limit key (run.multistep (limit - run.machine.cycle))) := by
  induction iterations generalizing run with
  | zero =>
      have reached : limit ≤ run.machine.cycle := enough
      rw [finish?, if_pos reached, limitReached_eq live reached]
  | succ iterations ih =>
      by_cases reached : limit ≤ run.machine.cycle
      · rw [finish?, if_pos reached, limitReached_eq live reached]
      · have below : run.machine.cycle < limit := Nat.lt_of_not_le reached
        rw [finish?, if_neg reached]
        cases active : run.machine.isAwaitingKey with
        | true =>
            have stopped : run.isStopped = true := by
              rw [Outcome.isStopped, active, Bool.or_true]
            have ended : endingOf limit key run = refusal key := by
              simp only [endingOf, live.succeeded, active, below, and_self, if_true]
            rw [advance_of_unanswered missing active, Outcome.multistep_of_stopped stopped,
              ended]
        | false =>
            have left : limit - run.machine.cycle = limit - (run.machine.cycle + 1) + 1 := by
              omega
            have goesOn : run.isStopped = false := by
              rw [Outcome.isStopped, active, Machine.failed_eq_false_iff.mpr live.succeeded]
              rfl
            have batch : run.multistep (limit - run.machine.cycle) =
                run.tick.multistep (limit - (run.machine.cycle + 1)) := by
              rw [left, Outcome.multistep, goesOn]
              rfl
            have ticks := ticksOnce_tickOnce live active
            rw [advance_of_active key active, batch]
            generalize tickOnce run = progress at ticks
            cases ticks with
            | fails fault failed =>
                have stopped : run.tick.isStopped = true := by
                  apply Outcome.isStopped_of_failed
                  simp only [Outcome.failed, failed]
                have ended : endingOf limit key run.tick = .failed fault := by
                  simp only [endingOf, failed]
                rw [Outcome.multistep_of_stopped stopped, ended]
            | executes word executes counted liveAfter =>
                -- a cycle was counted, so one iteration less is still enough
                have rest := ih liveAfter (by omega)
                rw [counted] at rest
                exact rest

/-! ### Waits that a key answers -/

/-- A machine after its wait, if it is at one, has been answered by pressing a key and letting
it go. -/
def answered (key : Nat) (machine : Machine) : Machine :=
  { machine with
    registers :=
      match machine.state with
      | .running => machine.registers
      | .awaitingKey register => machine.registers.write register.toNat (UInt8.ofNat key)
    keypad :=
      match machine.state with
      | .running => machine.keypad
      | .awaitingKey _ => machine.keypad.set key false
    state := .running }

variable {machine : Machine} {key : Nat}

private theorem answered_of_running (key : Nat) (running : machine.state = .running) :
    answered key machine = machine := by
  simp only [answered, running]
  rw [← running]

private theorem tap_of_awaiting (present : key < 16) {register : UInt64}
    (existing : register.toNat < 16) (awaiting : machine.state = .awaitingKey register) :
    tap key machine = { result := .ok (), machine := answered key machine } := by
  have awaited := Machine.awaited_of_awaiting awaiting existing
  have pressed : (machine.keyed key true).state = .running := rfl
  simp only [tap, Machine.changeKey_of_present present awaited,
    Machine.changeKey_of_present present (Machine.awaited_of_running pressed), Except.map]
  simp only [Machine.keyed, answered, awaiting, Keypad.set_set, if_true, Bool.false_eq_true,
    if_false]

private theorem answered_wait (present : key < 16) {register : UInt64}
    (existing : register.toNat < 16) (awaiting : machine.state = .awaitingKey register) :
    ((answered key machine).registers.read register.toNat).toNat = key ∧
      (answered key machine).keypad.isHeld key = false := by
  have stored : register.toNat < Registers.count := existing
  have released : key < Keypad.count := present
  simp only [answered, awaiting, Registers.read_write, Keypad.isHeld_set, stored, released,
    and_self, if_true, UInt8.toNat_ofNat', and_true]
  omega

def resumed (key : Nat) (run : Outcome Unit) : Outcome Unit :=
  { run with machine := answered key run.machine }

theorem Live.resumed {run : Outcome Unit} (live : Live run) (key : Nat) :
    Live (resumed key run) := by
  have sound := live.sound
  exact ⟨live.succeeded, live.unpaused,
    sound.font, sound.depth, sound.returns, sound.pc, fun register waits => by cases waits⟩

private theorem advance_of_answered (present : key < 16) {run : Outcome Unit} (live : Live run) :
    advance (some key) run = tickOnce (resumed key run) := by
  cases stateAt : run.machine.state with
  | running =>
      have active : run.machine.isAwaitingKey = false := by
        simp only [Machine.isAwaitingKey, stateAt]
      rw [advance_of_active _ active, resumed, answered_of_running key stateAt]
  | awaitingKey register =>
      have waits : run.machine.isAwaitingKey = true := by
        simp only [Machine.isAwaitingKey, stateAt]
      have tapped := tap_of_awaiting present (live.sound.awaited register stateAt) stateAt
      simp only [advance, waits, if_true, tapped, resumed]

theorem ticksOnce_advance (present : key < 16) {run : Outcome Unit} (live : Live run) :
    TicksOnce (resumed key run) (advance (some key) run) := by
  rw [advance_of_answered present live]
  exact ticksOnce_tickOnce (live.resumed key) rfl

theorem finish?_of_answered (present : key < 16) {limit iterations : Nat} {run : Outcome Unit}
    (live : Live run) (within : run.machine.cycle ≤ limit)
    (enough : limit ≤ run.machine.cycle + iterations) :
    ∃ final ending, finish? limit (some key) iterations run = some (final, ending) ∧
      (ending.result = .ok () → final.machine.cycle = limit) := by
  induction iterations generalizing run with
  | zero =>
      have reached : limit ≤ run.machine.cycle := enough
      exact ⟨run, .limitReached, by rw [finish?, if_pos reached],
        fun _ => Nat.le_antisymm within reached⟩
  | succ iterations ih =>
      by_cases reached : limit ≤ run.machine.cycle
      · exact ⟨run, .limitReached, by rw [finish?, if_pos reached],
          fun _ => Nat.le_antisymm within reached⟩
      · have ticks := ticksOnce_advance present live
        rw [finish?, if_neg reached]
        generalize advance (some key) run = progress at ticks
        cases ticks with
        | fails fault failed => exact ⟨_, _, rfl, fun succeeded => nomatch succeeded⟩
        | executes word executes counted liveAfter =>
            have oneMore : (resumed key run).tick.machine.cycle = run.machine.cycle + 1 := counted
            have below : run.machine.cycle < limit := Nat.lt_of_not_le reached
            exact ih liveAfter (by rw [oneMore]; exact below) (by rw [oneMore]; omega)

/-- The loop has gone from one run to another by iterations that did not end it. -/
inductive Passes (limit : Nat) (key : Option Nat) (start : Outcome Unit) :
    Nat → Outcome Unit → Prop
  | begin : Passes limit key start 0 start
  | next {count : Nat} {run : Outcome Unit} (before : Passes limit key start count run)
      (below : run.machine.cycle < limit) (goesOn : (advance key run).ending = none) :
      Passes limit key start (count + 1) (advance key run).run

theorem Passes.live (present : key < 16) {limit count : Nat} {start run : Outcome Unit}
    (passes : Passes limit (some key) start count run) (live : Live start) : Live run := by
  induction passes with
  | begin => exact live
  | next before below goesOn ih =>
      have ticks := ticksOnce_advance present ih
      generalize advance (some key) _ = progress at ticks goesOn ⊢
      cases ticks with
      | fails fault failed => cases goesOn
      | executes word executes counted liveAfter => exact liveAfter

/-- What an iteration does that does not end the loop: it executes one instruction, after the
wait, if there is one, has been answered. -/
structure ExecutesOne (key : Nat) (run after : Outcome Unit) : Prop where
  executes : ∃ word, (resumed key run).machine.Executes run.dice word
  ticked : after = (resumed key run).tick
  counted : after.machine.cycle = run.machine.cycle + 1
  answers : ∀ register, run.machine.state = .awaitingKey register →
    ((resumed key run).machine.registers.read register.toNat).toNat = key ∧
      (resumed key run).machine.keypad.isHeld key = false
  waits : ∀ word x, (resumed key run).machine.Executes run.dice word →
    Instruction.ofWord? word = some (.register .awaitKey x) →
      after.machine.state = .awaitingKey x

private theorem state_of_awaitKey {dice : Dice} {word : UInt16} {x : UInt64}
    (executes : machine.Executes dice word)
    (decoded : Instruction.ofWord? word = some (.register .awaitKey x)) :
    (machine.tick dice).machine.state = .awaitingKey x := by
  obtain ⟨busy, fetched, -⟩ := executes
  have ran : (machine.poised word).execute dice.roll (.register .awaitKey x) =
      .ok { machine.poised word with state := .awaitingKey x } := rfl
  rw [Machine.tick_of_executed busy fetched decoded ran]

theorem Passes.executesOne (present : key < 16) {limit count : Nat} {start run : Outcome Unit}
    (passes : Passes limit (some key) start count run) (live : Live start)
    (goesOn : (advance (some key) run).ending = none) :
    ExecutesOne key run (advance (some key) run).run := by
  have alive := passes.live present live
  have ticks := ticksOnce_advance present alive
  generalize advance (some key) run = progress at ticks goesOn ⊢
  cases ticks with
  | fails fault failed => cases goesOn
  | executes word executes counted liveAfter =>
      refine ⟨⟨word, executes⟩, rfl, counted, ?_, ?_⟩
      · intro register waits
        exact answered_wait present (alive.sound.awaited register waits) waits
      · intro other x executed decoded
        exact state_of_awaitKey executed decoded

/-! ### From the start -/

section Start

variable {limit : Nat} {dice : Dice}

theorem runFrom_of_finish? {key : Option Nat} {result : Outcome Unit × Ending}
    (finished : finish? limit key limit (machine.start dice) = some result) :
    runFrom limit key machine dice = result := by
  rw [runFrom, finished, Option.getD_some]

theorem finish?_start_of_unanswered {key : Option Nat}
    (missing : ∀ number, key = some number → 16 ≤ number) (live : Live (machine.start dice))
    (fresh : machine.cycle = 0) :
    finish? limit key limit (machine.start dice) =
      some (machine.multistep dice limit, endingOf limit key (machine.multistep dice limit)) := by
  have uncounted : (machine.start dice).machine.cycle = 0 := fresh
  have enough : limit ≤ (machine.start dice).machine.cycle + limit := Nat.le_add_left _ _
  have finished := finish?_of_unanswered missing live enough
  rw [uncounted] at finished
  exact finished

theorem runFrom_of_unanswered {key : Option Nat}
    (missing : ∀ number, key = some number → 16 ≤ number) (live : Live (machine.start dice))
    (fresh : machine.cycle = 0) :
    runFrom limit key machine dice =
      (machine.multistep dice limit, endingOf limit key (machine.multistep dice limit)) :=
  runFrom_of_finish? (finish?_start_of_unanswered missing live fresh)

theorem finish?_start_of_answered (present : key < 16) (live : Live (machine.start dice))
    (fresh : machine.cycle = 0) :
    finish? limit (some key) limit (machine.start dice) =
        some (runFrom limit (some key) machine dice) ∧
      ((runFrom limit (some key) machine dice).2.result = .ok () →
        (runFrom limit (some key) machine dice).1.machine.cycle = limit) := by
  have uncounted : (machine.start dice).machine.cycle = 0 := fresh
  obtain ⟨final, ending, finished, counts⟩ := finish?_of_answered present live
    (by rw [uncounted]; exact Nat.zero_le limit) (Nat.le_add_left limit _)
  rw [runFrom_of_finish? finished]
  exact ⟨finished, counts⟩

theorem finish?_start (limit : Nat) (key : Option Nat) (live : Live (machine.start dice))
    (fresh : machine.cycle = 0) :
    finish? limit key limit (machine.start dice) = some (runFrom limit key machine dice) := by
  have unanswered (missing : ∀ number, key = some number → 16 ≤ number) :
      finish? limit key limit (machine.start dice) = some (runFrom limit key machine dice) := by
    rw [runFrom_of_unanswered missing live fresh]
    exact finish?_start_of_unanswered missing live fresh
  cases key with
  | none => exact unanswered nofun
  | some number =>
      by_cases present : number < 16
      · exact (finish?_start_of_answered present live fresh).1
      · apply unanswered
        rintro _ ⟨⟩
        exact Nat.le_of_not_lt present

end Start

/-! ### Endings -/

theorem result_endingOf_none (limit : Nat) (run : Outcome Unit) :
    (endingOf limit none run).result = run.result := by
  cases result : run.result with
  | error fault => simp only [endingOf, result, Ending.result]
  | ok value =>
      simp only [endingOf, result, refusal]
      split <;> rfl

theorem endingOf_none_eq_noKey_iff {limit : Nat} {run : Outcome Unit} :
    endingOf limit none run = .noKey ↔
      run.result = .ok () ∧ run.machine.isAwaitingKey = true ∧ run.machine.cycle < limit := by
  cases result : run.result with
  | error fault => simp [endingOf, result]
  | ok value =>
      simp only [endingOf, result, refusal, true_and]
      split <;> simp [*]

theorem endingOf_some (limit key : Nat) (run : Outcome Unit) :
    endingOf limit (some key) run =
      if endingOf limit none run = .noKey then .failed (.noSuchKey key)
      else endingOf limit none run := by
  cases result : run.result with
  | error fault => simp [endingOf, result]
  | ok value =>
      simp only [endingOf, result, refusal]
      split <;> simp

end Runner

end Chip8
