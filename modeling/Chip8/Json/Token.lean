import Chip8.Json.Escape

/-!
JSON tokens and the scanner that finds them in a text. The scanner goes through
the text once; `Reading` is what it knows of the token it is inside of. Letters,
digits, signs and points that stand together are one token or an error.
-/

namespace Chip8.Json

inductive Token
  | openObject
  | closeObject
  | openArray
  | closeArray
  | colon
  | comma
  | null
  | boolean (value : Bool)
  | number (literal : List Char)
  | string (raw : List Char)
  deriving DecidableEq, Repr

namespace Number

def isDigits (literal : List Char) : Bool :=
  !literal.isEmpty && literal.all Char.isDigit

def unsigned : List Char → List Char
  | '-' :: rest => rest
  | literal => literal

def isExponent : List Char → Bool
  | [] => true
  | 'e' :: '+' :: rest | 'E' :: '+' :: rest => isDigits rest
  | 'e' :: '-' :: rest | 'E' :: '-' :: rest => isDigits rest
  | 'e' :: rest | 'E' :: rest => isDigits rest
  | _ => false

def isFraction : List Char → Bool
  | '.' :: c :: rest => c.isDigit && isExponent (rest.dropWhile Char.isDigit)
  | rest => isExponent rest

/-- An integer part has no leading zero. -/
def isLiteral (literal : List Char) : Bool :=
  match unsigned literal with
  | '0' :: rest => isFraction rest
  | c :: rest => c.isDigit && isFraction (rest.dropWhile Char.isDigit)
  | [] => false

end Number

def Token.ofAtom? (atom : List Char) : Option Token :=
  if atom = ['n', 'u', 'l', 'l'] then some .null
  else if atom = ['t', 'r', 'u', 'e'] then some (.boolean true)
  else if atom = ['f', 'a', 'l', 's', 'e'] then some (.boolean false)
  else if Number.isLiteral atom then some (.number atom)
  else none

def Token.chars : Token → List Char
  | .openObject => ['\x7b']
  | .closeObject => ['\x7d']
  | .openArray => ['[']
  | .closeArray => [']']
  | .colon => [':']
  | .comma => [',']
  | .null => ['n', 'u', 'l', 'l']
  | .boolean true => ['t', 'r', 'u', 'e']
  | .boolean false => ['f', 'a', 'l', 's', 'e']
  | .number literal => literal
  | .string raw => '"' :: raw ++ ['"']

/-- The characters taken so far are kept with the latest first. -/
inductive Reading
  | between
  | atom (taken : List Char)
  | string (taken : List Char)
  | escape (taken : List Char)
  deriving DecidableEq, Repr

namespace Reading

def isAtomChar (c : Char) : Bool := c.isAlphanum || c == '+' || c == '-' || c == '.'

def isBlank (c : Char) : Bool := c == ' ' || c == '\n' || c == '\t' || c == '\r'

/-- The tokens that a character completes on its own, and what it begins. -/
def first (c : Char) : Option (List Token × Reading) :=
  if isBlank c then some ([], .between)
  else if isAtomChar c then some ([], .atom [c])
  else
    match c with
    | '\x7b' => some ([.openObject], .between)
    | '\x7d' => some ([.closeObject], .between)
    | '[' => some ([.openArray], .between)
    | ']' => some ([.closeArray], .between)
    | ':' => some ([.colon], .between)
    | ',' => some ([.comma], .between)
    | '"' => some ([], .string [])
    | _ => none

def step : Reading → Char → Option (List Token × Reading)
  | .between, c => first c
  | .atom taken, c =>
      if isAtomChar c then some ([], .atom (c :: taken))
      else do
        let token ← Token.ofAtom? taken.reverse
        let (tokens, next) ← first c
        some (token :: tokens, next)
  | .string taken, '"' =>
      if (Escape.pieces taken.reverse).isSome then
        some ([.string taken.reverse], .between)
      else none
  | .string taken, '\\' => some ([], .escape taken)
  | .string taken, c => some ([], .string (c :: taken))
  | .escape taken, c => some ([], .string (c :: '\\' :: taken))

def finish : Reading → Option (List Token)
  | .between => some []
  | .atom taken => (Token.ofAtom? taken.reverse).map fun token => [token]
  | .string _ => none
  | .escape _ => none

def scan (reading : Reading) : List Char → Option (List Token)
  | [] => reading.finish
  | c :: rest => do
      let (tokens, next) ← reading.step c
      let after ← next.scan rest
      some (tokens ++ after)

end Reading

def Token.scan (text : List Char) : Option (List Token) := Reading.between.scan text

end Chip8.Json
