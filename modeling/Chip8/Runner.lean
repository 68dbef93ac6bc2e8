import Chip8.Machine.Tick

/-!
Running a program without a screen: tick until a number of instructions has been
executed, answering every wait for a key with one key, if there is one.
-/

namespace Chip8.Runner

inductive Ending
  | limitReached
  | noKey
  | failed (fault : Fault)
  deriving DecidableEq, Repr

structure Progress where
  run : Outcome Unit
  ending : Option Ending

def tap (key : Nat) (machine : Machine) : Reply Unit :=
  let press := machine.changeKey key true
  match press.result with
  | .error fault => { result := .error fault, machine := press.machine }
  | .ok _ =>
      let release := press.machine.changeKey key false
      { result := release.result.map fun _ => (), machine := release.machine }

def tickOnce (run : Outcome Unit) : Progress :=
  let after := run.tick
  match after.result with
  | .ok () => { run := after, ending := none }
  | .error fault => { run := after, ending := some (.failed fault) }

/-- A run that is not at its limit goes on by one tick, after a wait for a key
has been answered. -/
def advance (key : Option Nat) (run : Outcome Unit) : Progress :=
  if run.machine.isAwaitingKey then
    match key with
    | none => { run, ending := some .noKey }
    | some key =>
        let tapped := tap key run.machine
        let resumed := { run with machine := tapped.machine }
        match tapped.result with
        | .error fault => { run := resumed, ending := some (.failed fault) }
        | .ok () => tickOnce resumed
  else tickOnce run

/-- Go on while less than `limit` instructions have been executed; nothing is
found if that takes more than a number of iterations. -/
def finish? (limit : Nat) (key : Option Nat) : Nat → Outcome Unit → Option (Outcome Unit × Ending)
  | 0, run => if limit ≤ run.machine.cycle then some (run, .limitReached) else none
  | iterations + 1, run =>
      if limit ≤ run.machine.cycle then some (run, .limitReached)
      else
        let progress := advance key run
        match progress.ending with
        | some ending => some (progress.run, ending)
        | none => finish? limit key iterations progress.run

/-- Every iteration executes an instruction or ends the run, so the limit bounds
their number. -/
def runFrom (limit : Nat) (key : Option Nat) (machine : Machine) (dice : Dice) :
    Outcome Unit × Ending :=
  (finish? limit key limit (machine.start dice)).getD (machine.start dice, .limitReached)

end Chip8.Runner
