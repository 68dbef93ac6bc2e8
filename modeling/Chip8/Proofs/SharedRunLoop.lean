import Mathlib.Logic.Function.Iterate
import Chip8.CommandLine.Runner
import Chip8.Guarded.TimerLoop
import Chip8.Proofs.Loading
import Chip8.Proofs.RunLoop

/-!
The run loop beside a timer thread. The loop takes the lock for each look at the machine, each
key change and each tick, and the timer thread may come in between. As long as it finds both
timers at zero it changes nothing, so that the loop ends as it does alone: where no key answers
waits, like one batch of ticks.
-/

namespace Chip8.Runner

/-! ### The loop between two uses of the lock -/

/-- What the loop will take the lock for next. -/
inductive LoopPhase
  | comparing
  | looking
  | pressing (key : Nat)
  | releasing (key : Nat)
  | ticking
  | ended (ending : Ending)

def LoopPhase.unlessRefused {α : Type} (next : LoopPhase) : Except Fault α → LoopPhase
  | .ok _ => next
  | .error fault => .ended (.failed fault)

theorem LoopPhase.unlessRefused_map {α β : Type} (next : LoopPhase) (convert : α → β)
    (result : Except Fault α) :
    next.unlessRefused (result.map convert) = next.unlessRefused result := by
  cases result with
  | ok value => rfl
  | error fault => rfl

structure SharedRun where
  phase : LoopPhase
  guarded : Guarded
  /-- The lines that the loop's ticks have printed, the latest first. -/
  trace : List TraceLine

namespace SharedRun

def of (phase : LoopPhase) (run : Outcome Unit) : SharedRun :=
  { phase, guarded := .ofMachine run.machine run.dice, trace := run.trace }

def look (shared : SharedRun) (next : Machine → LoopPhase) : SharedRun :=
  match shared.guarded.machine? with
  | .ok machine => { shared with phase := next machine }
  | .error fault => { shared with phase := .ended (.failed fault) }

def request (shared : SharedRun) (operation : Operation) (next : LoopPhase) : SharedRun :=
  let served := shared.guarded.serve (.operate operation)
  { phase :=
      match served.response with
      | .answered result => next.unlessRefused result
      | _ => .ended (.failed .poisoned)
    guarded := served.guarded
    trace := served.trace ++ shared.trace }

def waiting : Option Nat → LoopPhase
  | none => .ended .noKey
  | some key => .pressing key

/-- One use of the lock. -/
def step (limit : Nat) (key : Option Nat) (shared : SharedRun) : SharedRun :=
  match shared.phase with
  | .comparing =>
      shared.look fun machine => if limit ≤ machine.cycle then .ended .limitReached else .looking
  | .looking =>
      shared.look fun machine => if machine.isAwaitingKey then waiting key else .ticking
  | .pressing key => shared.request (.changeKey key true) (.releasing key)
  | .releasing key => shared.request (.changeKey key false) .ticking
  | .ticking => shared.request .tick .comparing
  | .ended _ => shared

private theorem step_of_ended (limit : Nat) (key : Option Nat) (ending : Ending)
    (run : Outcome Unit) :
    step limit key (of (.ended ending) run) = of (.ended ending) run :=
  rfl

def after (progress : Progress) : SharedRun :=
  match progress.ending with
  | none => of .comparing progress.run
  | some ending => of (.ended ending) progress.run

variable {limit : Nat} {key : Option Nat}

/-! ### Single steps -/

theorem look_of (phase : LoopPhase) (run : Outcome Unit) (next : Machine → LoopPhase) :
    look (of phase run) next = of (next run.machine) run := by
  simp only [look, of, Guarded.machine?, Guarded.ofMachine, Bool.false_eq_true, if_false]

theorem step_comparing (run : Outcome Unit) :
    step limit key (of .comparing run) =
      of (if limit ≤ run.machine.cycle then .ended .limitReached else .looking) run :=
  look_of .comparing run fun machine =>
    if limit ≤ machine.cycle then .ended .limitReached else .looking

private theorem step_looking (run : Outcome Unit) :
    step limit key (of .looking run) =
      of (if run.machine.isAwaitingKey then waiting key else .ticking) run :=
  look_of .looking run fun machine => if machine.isAwaitingKey then waiting key else .ticking

theorem request_of (phase : LoopPhase) (run : Outcome Unit) (operation : Operation)
    (next : LoopPhase) :
    let applied := operation.apply run.machine run.dice
    request (of phase run) operation next =
      of (next.unlessRefused applied.result)
        { applied with result := run.result, trace := applied.trace ++ run.trace } :=
  rfl

theorem step_ticking (run : Outcome Unit) :
    step limit key (of .ticking run) = after (tickOnce run) := by
  have requested : step limit key (of .ticking run) =
      of (LoopPhase.unlessRefused .comparing (run.tick.result.map fun _ => Answer.done))
        run.tick :=
    request_of .ticking run .tick .comparing
  rw [requested, LoopPhase.unlessRefused_map]
  cases result : run.tick.result with
  | ok value => simp only [tickOnce, result, after, LoopPhase.unlessRefused]
  | error fault => simp only [tickOnce, result, after, LoopPhase.unlessRefused]

private theorem request_changeKey (phase : LoopPhase) (run : Outcome Unit) (number : Nat)
    (pressed : Bool) (next : LoopPhase) :
    let changed := run.machine.changeKey number pressed
    request (of phase run) (.changeKey number pressed) next =
      of (next.unlessRefused changed.result) { run with machine := changed.machine } := by
  intro changed
  rw [← LoopPhase.unlessRefused_map next Answer.yesNo]
  exact request_of phase run (.changeKey number pressed) next

private theorem step_pressing (number : Nat) (run : Outcome Unit) :
    let pressed := run.machine.changeKey number true
    step limit key (of (.pressing number) run) =
      of (LoopPhase.unlessRefused (.releasing number) pressed.result)
        { run with machine := pressed.machine } :=
  request_changeKey (.pressing number) run number true (.releasing number)

private theorem step_releasing (number : Nat) (run : Outcome Unit) :
    let released := run.machine.changeKey number false
    step limit key (of (.releasing number) run) =
      of (LoopPhase.unlessRefused .ticking released.result)
        { run with machine := released.machine } :=
  request_changeKey (.releasing number) run number false .ticking

/-! ### Iterations -/

/-- Taking the lock some number of times, up to a bound, leads from one place to another. -/
def Leads (limit : Nat) (key : Option Nat) (bound : Nat) (first last : SharedRun) : Prop :=
  ∃ count ≤ bound, (step limit key)^[count] first = last

theorem Leads.once {first last : SharedRun} (stepped : step limit key first = last) :
    Leads limit key 1 first last :=
  ⟨1, Nat.le_refl 1, stepped⟩

theorem Leads.trans {first middle last : SharedRun} {bound others : Nat}
    (earlier : Leads limit key bound first middle) (later : Leads limit key others middle last) :
    Leads limit key (bound + others) first last := by
  obtain ⟨count, within, rfl⟩ := earlier
  obtain ⟨further, rest, rfl⟩ := later
  refine ⟨further + count, by omega, ?_⟩
  rw [Function.iterate_add_apply]

theorem Leads.mono {first last : SharedRun} {bound larger : Nat}
    (leads : Leads limit key bound first last) (enlarged : bound ≤ larger) :
    Leads limit key larger first last := by
  obtain ⟨count, within, reached⟩ := leads
  exact ⟨count, Nat.le_trans within enlarged, reached⟩

theorem leads_tap (number : Nat) (run : Outcome Unit) :
    let tapped := tap number run.machine
    Leads limit key 2 (of (.pressing number) run)
      (of (LoopPhase.unlessRefused .ticking tapped.result)
        { run with machine := tapped.machine }) := by
  intro tapped
  let held : Outcome Unit := { run with machine := (run.machine.changeKey number true).machine }
  have pressed := Leads.once (step_pressing number run : step limit key _ = _)
  cases press : (run.machine.changeKey number true).result with
  | error fault =>
      have refused : tapped = { result := .error fault, machine := held.machine } := by
        simp only [tapped, tap, press, held]
      rw [press] at pressed
      rw [refused]
      exact pressed.mono (by decide)
  | ok changed =>
      let released := held.machine.changeKey number false
      have completed : tapped =
          { result := released.result.map fun _ => (), machine := released.machine } := by
        simp only [tapped, tap, press, held, released]
      rw [press] at pressed
      rw [completed, LoopPhase.unlessRefused_map]
      exact pressed.trans (Leads.once (step_releasing number held))

private theorem leads_advance {run : Outcome Unit} (below : run.machine.cycle < limit) :
    Leads limit key 5 (of .comparing run) (after (advance key run)) := by
  have looked := Leads.once (step_looking run : step limit key _ = _)
  have compared := Leads.once (step_comparing run : step limit key _ = _)
  rw [if_neg (Nat.not_le_of_lt below)] at compared
  cases active : run.machine.isAwaitingKey with
  | false =>
      simp only [active, Bool.false_eq_true, if_false] at looked
      rw [advance_of_active key active]
      exact ((compared.trans looked).trans (Leads.once (step_ticking run))).mono (by decide)
  | true =>
      cases key with
      | none =>
          simp only [active, if_true, waiting] at looked
          simp only [advance, active, if_true]
          exact (compared.trans looked).mono (by decide)
      | some number =>
          simp only [active, if_true, waiting] at looked
          have tapped := (compared.trans looked).trans (leads_tap number run)
          cases result : (tap number run.machine).result with
          | error fault =>
              simp only [result] at tapped
              simp only [advance, active, if_true, result]
              exact tapped.mono (by decide)
          | ok value =>
              simp only [result] at tapped
              simp only [advance, active, if_true, result]
              exact tapped.trans (Leads.once (step_ticking _))

theorem leads_limit {run : Outcome Unit} (reached : limit ≤ run.machine.cycle) :
    Leads limit key 1 (of .comparing run) (of (.ended .limitReached) run) := by
  apply Leads.once
  rw [step_comparing, if_pos reached]

private theorem leads_finish {iterations : Nat} {run final : Outcome Unit} {ending : Ending}
    (finished : finish? limit key iterations run = some (final, ending)) :
    Leads limit key (5 * iterations + 1) (of .comparing run) (of (.ended ending) final) := by
  induction iterations generalizing run with
  | zero =>
      by_cases reached : limit ≤ run.machine.cycle
      · simp only [finish?, if_pos reached, Option.some.injEq, Prod.mk.injEq] at finished
        obtain ⟨rfl, rfl⟩ := finished
        exact leads_limit reached
      · simp [finish?, reached] at finished
  | succ iterations ih =>
      by_cases reached : limit ≤ run.machine.cycle
      · simp only [finish?, if_pos reached, Option.some.injEq, Prod.mk.injEq] at finished
        obtain ⟨rfl, rfl⟩ := finished
        exact (leads_limit reached).mono (by omega)
      · have iteration : Leads limit key 5 (of .comparing run) (after (advance key run)) :=
          leads_advance (Nat.lt_of_not_le reached)
        simp only [finish?, if_neg reached] at finished
        cases ended : (advance key run).ending with
        | some other =>
            simp only [ended, Option.some.injEq, Prod.mk.injEq] at finished
            obtain ⟨rfl, rfl⟩ := finished
            simp only [after, ended] at iteration
            exact iteration.mono (by omega)
        | none =>
            simp only [ended] at finished
            simp only [after, ended] at iteration
            exact (iteration.trans (ih finished)).mono (by omega)

end SharedRun

/-! ### The timer thread in between -/

def Silent (guarded : Guarded) : Prop :=
  guarded.machine.delay = 0 ∧ guarded.machine.sound = 0

private theorem guarded_decrement {guarded : Guarded} (silent : Silent guarded) :
    (guarded.serve (.operate .decrementTimers)).guarded = guarded := by
  have delay : Machine.countDown guarded.machine.delay = guarded.machine.delay := by
    rw [silent.1]
    rfl
  have sound : Machine.countDown guarded.machine.sound = guarded.machine.sound := by
    rw [silent.2]
    rfl
  have still : guarded.machine.decrementTimers = guarded.machine := by
    rw [Machine.decrementTimers, delay, sound]
  unfold Guarded.serve
  split
  · rfl
  · simp only [Operation.apply, Outcome.ofReply, still]

/-- A timer thread that finds both timers at zero leaves the machine as it is. -/
theorem guarded_timerStep {guarded : Guarded} (silent : Silent guarded) (timer : TimerLoop)
    (stopRequested beeperCrashes : Bool) :
    (timer.step stopRequested beeperCrashes guarded).2 = guarded := by
  have unchanged := guarded_decrement silent
  unfold TimerLoop.step
  split
  · split <;> rfl
  · dsimp only
    split <;> exact unchanged
  · dsimp only
    split <;> rfl
  · rfl

structure Threads where
  shared : SharedRun
  timer : TimerLoop

namespace Threads

def atStart (machine : Machine) (dice : Dice) : Threads :=
  { shared := .of .comparing (machine.start dice), timer := .start }

def stepLoop (limit : Nat) (key : Option Nat) (threads : Threads) : Threads :=
  { threads with shared := threads.shared.step limit key }

def stepTimer (stopRequested beeperCrashes : Bool) (threads : Threads) : Threads :=
  let stepped := threads.timer.step stopRequested beeperCrashes threads.shared.guarded
  { shared := { threads.shared with guarded := stepped.2 }, timer := stepped.1 }

/-- The threads take their steps in any order, a number of them the loop's. Whenever it is the
timer thread's turn, both timers are at zero. -/
inductive Interleaves (limit : Nat) (key : Option Nat) (first : Threads) : Nat → Threads → Prop
  | begin : Interleaves limit key first 0 first
  | loop {count : Nat} {threads : Threads} (before : Interleaves limit key first count threads) :
      Interleaves limit key first (count + 1) (threads.stepLoop limit key)
  | timer {count : Nat} {threads : Threads} (before : Interleaves limit key first count threads)
      (stopRequested beeperCrashes : Bool) (silent : Silent threads.shared.guarded) :
      Interleaves limit key first count (threads.stepTimer stopRequested beeperCrashes)

private theorem Interleaves.shared_eq {limit : Nat} {key : Option Nat} {first threads : Threads}
    {count : Nat} (interleaves : Interleaves limit key first count threads) :
    threads.shared = (SharedRun.step limit key)^[count] first.shared := by
  induction interleaves with
  | begin => rfl
  | loop before ih =>
      rw [Function.iterate_succ_apply', ← ih]
      rfl
  | timer before stopRequested beeperCrashes silent ih =>
      dsimp only [stepTimer]
      rw [guarded_timerStep silent]
      exact ih

theorem Interleaves.ended {limit : Nat} {key : Option Nat} {machine : Machine} {dice : Dice}
    {iterations : Nat} {final : Outcome Unit} {ending : Ending}
    (finished : finish? limit key iterations (machine.start dice) = some (final, ending))
    {count : Nat} {threads : Threads}
    (interleaves : Interleaves limit key (atStart machine dice) count threads)
    (enough : 5 * iterations + 1 ≤ count) :
    threads.shared = .of (.ended ending) final := by
  obtain ⟨needed, within, reached⟩ := SharedRun.leads_finish finished
  have stays : SharedRun.step limit key (.of (.ended ending) final) = .of (.ended ending) final :=
    SharedRun.step_of_ended limit key ending final
  have split : count = (count - needed) + needed := by omega
  rw [interleaves.shared_eq, split, Function.iterate_add_apply]
  change (SharedRun.step limit key)^[count - needed]
    ((SharedRun.step limit key)^[needed] (.of .comparing (machine.start dice))) = _
  rw [reached, Function.iterate_fixed stays]

theorem Interleaves.more {limit : Nat} {key : Option Nat} {first threads : Threads} {count : Nat}
    (interleaves : Interleaves limit key first count threads) (further : Nat) :
    Interleaves limit key first (count + further) ((stepLoop limit key)^[further] threads) := by
  induction further with
  | zero => exact interleaves
  | succ further ih =>
      rw [Function.iterate_succ_apply']
      exact .loop ih

end Threads

/-! ### From a program just loaded -/

def loadedWith (options : CommandLine.Runner.Options) (image : List UInt8) : Machine :=
  ((Machine.empty 0 .coloured options.settings).loaded []).loaded image

theorem prepare_of_fitting (options : CommandLine.Runner.Options) {image : List UInt8}
    (fits : image.length ≤ 3584) :
    CommandLine.Runner.prepare options image = .ok (loadedWith options image) := by
  have below : (0 : UInt16).toNat + 80 ≤ 0x200 := by decide
  have made : Machine.create 0 .coloured options.settings =
      .ok ((Machine.empty 0 .coloured options.settings).loaded []) :=
    Machine.create_eq_ok_iff.mpr ⟨below, rfl⟩
  have sameFont : ((Machine.empty 0 .coloured options.settings).loaded []).font.toNat + 80 ≤
      0x200 := by
    rw [Machine.font_loaded]
    exact below
  simp only [CommandLine.Runner.prepare, made, Machine.load_of_fitting sameFont fits, bind,
    Except.bind, loadedWith]

private theorem live_start (options : CommandLine.Runner.Options) (image : List UInt8)
    (dice : Dice) :
    Live ((loadedWith options image).start dice) := by
  have below : (0 : UInt16).toNat + 80 ≤ 0x200 := by decide
  have sound : (loadedWith options image).Sound := by
    refine Machine.sound_of_restart ?_ rfl rfl rfl
    rw [loadedWith, Machine.font_loaded, Machine.font_loaded]
    exact below
  exact ⟨rfl, rfl, sound⟩

/-- The loop ends, beside a timer thread as alone. Where no key answers waits it does what one
batch of ticks does. A key that exists answers each wait before the next instruction, so that
only a fault keeps the loop from its limit. A key that does not exist is refused at the first
wait below the limit. -/
theorem loop_agrees_with_batch (options : CommandLine.Runner.Options) {image : List UInt8}
    (fits : image.length ≤ 3584) (dice : Dice) :
    ∃ machine, CommandLine.Runner.prepare options image = .ok machine ∧
      let limit := options.cycles
      let batch := machine.multistep dice limit
      let finished (key : Option Nat) := runFrom limit key machine dice
      (∀ key, finish? limit key limit (machine.start dice) = some (finished key) ∧
        ∀ count threads, Threads.Interleaves limit key (.atStart machine dice) count threads →
          5 * limit + 1 ≤ count →
            threads.shared = .of (.ended (finished key).2) (finished key).1) ∧
      ((finished none).1 = batch ∧ (finished none).2.result = batch.result ∧
        ((finished none).2 = .noKey ↔
          batch.result = .ok () ∧ batch.machine.isAwaitingKey = true ∧
            batch.machine.cycle < limit)) ∧
      (∀ key < 16,
        (∀ count run, Passes limit (some key) (machine.start dice) count run →
          (advance (some key) run).ending = none →
            ExecutesOne key run (advance (some key) run).run) ∧
        ((finished (some key)).2.result = .ok () →
          (finished (some key)).1.machine.cycle = limit)) ∧
      ∀ key, 16 ≤ key →
        finished (some key) =
          ((finished none).1,
            if (finished none).2 = .noKey then .failed (.noSuchKey key)
            else (finished none).2) := by
  let machine := loadedWith options image
  have live : Live (machine.start dice) := live_start options image dice
  have fresh : machine.cycle = 0 := rfl
  refine ⟨machine, prepare_of_fitting options fits, ?_⟩
  intro limit batch finished
  have unkeyed : finished none = (batch, endingOf limit none batch) :=
    runFrom_of_unanswered nofun live fresh
  refine ⟨?_, ?_, ?_, ?_⟩
  · intro key
    have ends := finish?_start limit key live fresh
    exact ⟨ends, fun count threads interleaves enough => interleaves.ended ends enough⟩
  · rw [unkeyed]
    exact ⟨rfl, result_endingOf_none limit batch, endingOf_none_eq_noKey_iff⟩
  · intro key present
    exact ⟨fun count run passes goesOn => passes.executesOne present live goesOn,
      (finish?_start_of_answered present live fresh).2⟩
  · intro key missing
    have keyed : finished (some key) = (batch, endingOf limit (some key) batch) := by
      refine runFrom_of_unanswered ?_ live fresh
      rintro _ ⟨⟩
      exact missing
    rw [keyed, unkeyed, endingOf_some]

/-- Wait for a key, add one to it and start again; the limit falls on the second wait. With a
key the wait is answered before the addition, and a turn of the timer thread is not noticed. -/
theorem waiting_runs_to_limit :
    let options := { CommandLine.Runner.Options.initial with cycles := 4, key := some 7 }
    let image : List UInt8 := [0xf3, 0x0a, 0x73, 0x01, 0x12, 0x00]
    let dice : Dice := { source := fun _ => 0, taken := 0 }
    let machine := loadedWith options image
    let finished (key : Option Nat) := runFrom 4 key machine dice
    let waiting := (advance (some 7) (machine.start dice)).run
    let threads := (Threads.stepLoop 4 (some 7))^[21]
      ((Threads.atStart machine dice).stepTimer false false)
    image.length ≤ 3584 ∧
      (finished none).2 = .noKey ∧ (finished none).1 = machine.multistep dice 4 ∧
      waiting.machine.state = .awaitingKey 3 ∧
      ((resumed 7 waiting).machine.registers.read 3).toNat = 7 ∧
      (finished (some 7)).2 = .limitReached ∧ (finished (some 7)).1.machine.cycle = 4 ∧
      threads.shared = .of (.ended .limitReached) (finished (some 7)).1 ∧
      (finished (some 16)).2 = .failed (.noSuchKey 16) := by
  intro options image dice machine finished waiting threads
  have fits : image.length ≤ 3584 := by decide
  obtain ⟨prepared, made, ends, alone, answered, refused⟩ :=
    loop_agrees_with_batch options fits dice
  obtain rfl : machine = prepared :=
    Except.ok.inj ((prepare_of_fitting options fits).symm.trans made)
  have seen : (finished none).2 = .noKey ∧ (finished (some 7)).2 = .limitReached ∧
      waiting.machine.state = .awaitingKey 3 ∧
      (advance (some 7) (machine.start dice)).ending = none ∧
      (advance (some 7) waiting).ending = none := by decide +kernel
  obtain ⟨unkeyed, keyed, waits, goesOn, goesFurther⟩ := seen
  obtain ⟨executes, counts⟩ := answered 7 (by decide)
  have begun : Passes 4 (some 7) (machine.start dice) 1 waiting :=
    .next .begin (Nat.zero_lt_succ 3) goesOn
  have stored := ((executes 1 waiting begun goesFurther).answers 3 waits).1
  have atStart : Threads.Interleaves 4 (some 7) (.atStart machine dice) 0 _ := .begin
  have interleaves := Threads.Interleaves.more (.timer atStart false false ⟨rfl, rfl⟩) 21
  have shared := (ends (some 7)).2 21 threads interleaves (by decide)
  have reached := counts (by rw [keyed]; rfl)
  have missing := congrArg Prod.snd (refused 16 (Nat.le_refl 16))
  rw [keyed] at shared
  rw [unkeyed] at missing
  exact ⟨fits, unkeyed, alone.1, waits, stored, keyed, reached, shared, missing⟩

end Chip8.Runner
