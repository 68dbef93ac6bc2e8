import Chip8.Operation

/-!
A machine behind a lock. Every request holds the lock from beginning to end, so
requests are served one after another. Code that crashes while it holds the lock
poisons it: whatever that code left behind is kept, and all later requests are
refused without being run.

Handles that are clones of one another name the same cell of a bank.
-/

namespace Chip8

structure Guarded where
  machine : Machine
  dice : Dice
  poisoned : Bool

/-- How a piece of code left the machine that it was lent, and the value it ended with. -/
inductive Visit (Value : Type)
  | returned (machine : Machine) (value : Value)
  | crashed (machine : Machine)

inductive Request
  | operate (operation : Operation)
  | visit {Value : Type} (body : Machine → Visit Value)

/-- A visit by code that may only look at the machine. It has no value if it crashes. -/
def Request.look {Value : Type} (read : Machine → Option Value) : Request :=
  .visit fun machine =>
    match read machine with
    | some value => .returned machine value
    | none => .crashed machine

inductive Response
  | answered (result : Except Fault Answer)
  | returned {Value : Type} (value : Value)
  | crashed

namespace Guarded

def ofMachine (machine : Machine) (dice : Dice) : Guarded :=
  { machine, dice, poisoned := false }

structure Served where
  response : Response
  guarded : Guarded
  trace : List TraceLine

def serve (guarded : Guarded) (request : Request) : Served :=
  if guarded.poisoned then
    { response := .answered (.error .poisoned), guarded, trace := [] }
  else
    match request with
    | .operate operation =>
        let outcome := operation.apply guarded.machine guarded.dice
        { response := .answered outcome.result
          guarded := { guarded with machine := outcome.machine, dice := outcome.dice }
          trace := outcome.trace }
    | .visit body =>
        match body guarded.machine with
        | .returned machine value =>
            { response := .returned value
              guarded := { guarded with machine }
              trace := [] }
        | .crashed machine =>
            { response := .crashed
              guarded := { guarded with machine, poisoned := true }
              trace := [] }

def machine? (guarded : Guarded) : Except Fault Machine :=
  if guarded.poisoned then .error .poisoned else .ok guarded.machine

end Guarded

end Chip8
