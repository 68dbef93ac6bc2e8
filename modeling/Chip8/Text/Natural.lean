/-!
Natural numbers read from text in a given radix. A plus sign may stand in front.
Of two faults in one text the one further to the left is told, and at one digit
that the digit is none before that the number is too large.
-/

namespace Chip8.Text

inductive NumeralFault
  | empty
  | invalidDigit
  | tooLarge
  deriving DecidableEq, Repr

def NumeralFault.message : NumeralFault → String
  | .empty => "cannot parse integer from empty string"
  | .invalidDigit => "invalid digit found in string"
  | .tooLarge => "number too large to fit in target type"

/-- The value of a digit or letter, in either case, that the radix has. -/
def digit? (radix : Nat) (c : Char) : Option Nat :=
  let value :=
    if c.isDigit then c.toNat - '0'.toNat
    else if c.isLower then c.toNat - 'a'.toNat + 10
    else if c.isUpper then c.toNat - 'A'.toNat + 10
    else radix
  if value < radix then some value else none

def naturalFrom (radix bound value : Nat) : List Char → Except NumeralFault Nat
  | [] => .ok value
  | c :: rest =>
      match digit? radix c with
      | none => .error .invalidDigit
      | some digit =>
          if radix * value + digit < bound then
            naturalFrom radix bound (radix * value + digit) rest
          else .error .tooLarge

/-- The number below `bound` that a text writes. -/
def natural (radix bound : Nat) (text : String) : Except NumeralFault Nat :=
  match text.toList with
  | [] => .error .empty
  | ['+'] => .error .invalidDigit
  | '+' :: digits => naturalFrom radix bound 0 digits
  | digits => naturalFrom radix bound 0 digits

end Chip8.Text
