import Chip8.Machine.Tick

/-!
The operations of a host as data, so that whole histories of a machine can be
run and spoken of.
-/

namespace Chip8

inductive Operation
  | load (program : List UInt8)
  | reset
  | tick
  | multistep (count : Nat)
  | changeKey (key : Nat) (pressed : Bool)
  | decrementTimers
  | setRegister (register : Nat) (value : UInt8)
  | choose (settings : Settings)
  deriving DecidableEq, Repr

inductive Answer
  | done
  | yesNo (value : Bool)
  deriving DecidableEq, Repr

namespace Outcome

def map {α β : Type} (convert : α → β) (outcome : Outcome α) : Outcome β :=
  { outcome with result := outcome.result.map convert }

/-- A reply that neither rolls dice nor prints. -/
def ofReply {α : Type} (dice : Dice) (reply : Reply α) : Outcome α :=
  { result := reply.result, machine := reply.machine, dice, trace := [] }

end Outcome

namespace Operation

/-- Decrementing the timers answers whether a tone ended, changing a key whether
the key changed. -/
def apply (operation : Operation) (machine : Machine) (dice : Dice) : Outcome Answer :=
  match operation with
  | .load program => (Outcome.ofReply dice (machine.load program)).map fun _ => .done
  | .reset =>
      Outcome.ofReply dice { result := .ok .done, machine := machine.reset }
  | .tick => (machine.tick dice).map fun _ => .done
  | .multistep count => (machine.multistep dice count).map fun _ => .done
  | .changeKey key pressed =>
      (Outcome.ofReply dice (machine.changeKey key pressed)).map .yesNo
  | .decrementTimers =>
      Outcome.ofReply dice
        { result := .ok (.yesNo machine.toneEnds), machine := machine.decrementTimers }
  | .setRegister register value =>
      (Outcome.ofReply dice (machine.setRegister register value)).map fun _ => .done
  | .choose settings =>
      Outcome.ofReply dice
        { result := .ok .done, machine := { machine with settings := settings } }

end Operation

/-- The results of a history of operations, in order, and what it leaves. -/
structure History where
  results : List (Except Fault Answer)
  machine : Machine
  dice : Dice
  trace : List TraceLine

/-- Apply operations one after another; a refused operation does not end the
history. -/
def Machine.run (machine : Machine) (dice : Dice) : List Operation → History
  | [] => { results := [], machine, dice, trace := [] }
  | operation :: operations =>
      let first := operation.apply machine dice
      let rest := first.machine.run first.dice operations
      { rest with
        results := first.result :: rest.results
        trace := rest.trace ++ first.trace }

end Chip8
