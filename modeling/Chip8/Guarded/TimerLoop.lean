import Chip8.Guarded

/-!
The loop of a timer thread, cut at the points where other threads may come in
between. It looks whether it shall stop, decrements the timers under the lock,
and, when that ended a tone, calls its beeper outside the lock. A beeper that
crashes ends its own loop and leaves the lock as it was.
-/

namespace Chip8

inductive Phase
  | checking
  | due
  | beeping
  | finished (result : Except Fault Nat)

structure TimerLoop where
  phase : Phase
  /-- The tones whose end this loop has seen. -/
  beeps : Nat
  calls : Nat

namespace TimerLoop

def start : TimerLoop := { phase := .checking, beeps := 0, calls := 0 }

def result? (loop : TimerLoop) : Option (Except Fault Nat) :=
  match loop.phase with
  | .finished result => some result
  | _ => none

def step (loop : TimerLoop) (stopRequested beeperCrashes : Bool) (guarded : Guarded) :
    TimerLoop × Guarded :=
  match loop.phase with
  | .checking =>
      if stopRequested then ({ loop with phase := .finished (.ok loop.beeps) }, guarded)
      else ({ loop with phase := .due }, guarded)
  | .due =>
      let served := guarded.serve (.operate .decrementTimers)
      match served.response with
      | .answered (.ok (.yesNo true)) =>
          ({ loop with phase := .beeping, beeps := loop.beeps + 1 }, served.guarded)
      | .answered (.ok _) => ({ loop with phase := .checking }, served.guarded)
      | .answered (.error fault) =>
          ({ loop with phase := .finished (.error fault) }, served.guarded)
      | _ => ({ loop with phase := .finished (.error .poisoned) }, served.guarded)
  | .beeping =>
      let called := { loop with calls := loop.calls + 1 }
      if beeperCrashes then
        ({ called with phase := .finished (.error .poisoned) }, guarded)
      else ({ called with phase := .checking }, guarded)
  | .finished _ => (loop, guarded)

end TimerLoop

end Chip8
