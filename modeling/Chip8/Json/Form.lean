import Chip8.Json.Syntax

/-!
Types with a JSON form. A record is written as an object with a member for each
field; it is read from an object with exactly one member for each field, in any
order and among any others, or from an array of its fields in order. A variant
is written as its name, or, when it has a record, as an object whose only member
has that name.
-/

namespace Chip8

class Form (α : Type) where
  toJson : α → Json
  ofJson? : Json → Option α

namespace Form

def print {α : Type} [Form α] (value : α) : String := (toJson value).text

def parse? {α : Type} [Form α] (text : String) : Option α :=
  (Json.parse? text).bind ofJson?

end Form

namespace Json

def ofNat (value : Nat) : Json := .number (Nat.toDigits 10 value)

/-- The number below a bound that is written with digits alone. -/
def below? (bound : Nat) : Json → Option Nat
  | .number literal =>
      if literal.all Char.isDigit ∧ Nat.ofDigitChars 10 literal 0 < bound then
        some (Nat.ofDigitChars 10 literal 0)
      else none
  | _ => none

def boolean? : Json → Option Bool
  | .boolean value => some value
  | _ => none

def record (fields : List (String × Json)) : Json :=
  .object (fields.map fun (name, value) => (name.toList, value))

def single? (name : String) (members : List (List Char × Json)) : Option Json :=
  match members.filter (fun member => member.1 == name.toList) with
  | [(_, value)] => some value
  | _ => none

def fields? (names : List String) : Json → Option (List Json)
  | .array items => if items.length = names.length then some items else none
  | .object members => do
      let decoded ← members.mapM fun (raw, value) =>
        (Escape.decode raw).map fun name => (name, value)
      names.mapM fun name => single? name decoded
  | _ => none

def variant (name : String) : Json := .string name.toList

def variant? : Json → Option (String × Option Json)
  | .string raw => (Escape.decode raw).map fun name => (String.ofList name, none)
  | .object [(raw, value)] =>
      (Escape.decode raw).map fun name => (String.ofList name, some value)
  | _ => none

/-- A variant without a record carries nothing, or null. -/
def carriesNothing : Option Json → Bool
  | none => true
  | some .null => true
  | some _ => false

end Json

end Chip8
