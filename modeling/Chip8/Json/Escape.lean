/-!
The inside of a JSON string. `pieces` reads it as characters and escaped code
units and refuses a malformed escape; `decode` also joins the two halves of a
surrogate pair and refuses a half that stands alone.
-/

namespace Chip8.Json.Escape

inductive Piece
  | char (value : Char)
  | unit (code : Nat)
  deriving DecidableEq, Repr

def hexDigit? (c : Char) : Option Nat :=
  if c.isDigit then some (c.toNat - '0'.toNat)
  else if 'a' ≤ c ∧ c ≤ 'f' then some (c.toNat - 'a'.toNat + 10)
  else if 'A' ≤ c ∧ c ≤ 'F' then some (c.toNat - 'A'.toNat + 10)
  else none

def hexCode? (digits : List Char) : Option Nat :=
  (digits.mapM hexDigit?).map (List.foldl (fun code digit => 16 * code + digit) 0)

def short? : Char → Option Char
  | '"' => some '"'
  | '\\' => some '\\'
  | '/' => some '/'
  | 'b' => some '\x08'
  | 'f' => some '\x0c'
  | 'n' => some '\n'
  | 'r' => some '\r'
  | 't' => some '\t'
  | _ => none

def pieces : List Char → Option (List Piece)
  | [] => some []
  | '\\' :: 'u' :: first :: second :: third :: fourth :: rest => do
      let code ← hexCode? [first, second, third, fourth]
      let after ← pieces rest
      some (.unit code :: after)
  | '\\' :: c :: rest => do
      let value ← short? c
      let after ← pieces rest
      some (.char value :: after)
  | ['\\'] => none
  | c :: rest =>
      if c.toNat < 0x20 then none
      else (pieces rest).map fun after => .char c :: after

def isHigh (code : Nat) : Bool := 0xd800 ≤ code && code < 0xdc00

def isLow (code : Nat) : Bool := 0xdc00 ≤ code && code < 0xe000

def joined (high low : Nat) : Char :=
  Char.ofNat (0x10000 + 0x400 * (high - 0xd800) + (low - 0xdc00))

def text? : List Piece → Option (List Char)
  | [] => some []
  | .char value :: rest => (text? rest).map fun after => value :: after
  | .unit code :: rest =>
      if isHigh code then
        match rest with
        | .unit low :: after =>
            if isLow low then (text? after).map fun chars => joined code low :: chars
            else none
        | _ => none
      else if isLow code then none
      else (text? rest).map fun after => Char.ofNat code :: after

def decode (raw : List Char) : Option (List Char) := (pieces raw).bind text?

end Chip8.Json.Escape
