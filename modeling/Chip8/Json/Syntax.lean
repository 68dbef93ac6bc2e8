import Chip8.Json
import Chip8.Json.Token

/-!
JSON values as sequences of tokens, both ways. A value is written as tokens
without blanks between them. It is read token by token, with a stack of the
arrays and objects that are still open.
-/

namespace Chip8.Json

def separated : List (List Token) → List Token
  | [] => []
  | [only] => only
  | first :: rest => first ++ .comma :: separated rest

mutual

def tokens : Json → List Token
  | .null => [.null]
  | .boolean value => [.boolean value]
  | .number literal => [.number literal]
  | .string raw => [.string raw]
  | .array items => .openArray :: separated (itemTokens items) ++ [.closeArray]
  | .object members => .openObject :: separated (memberTokens members) ++ [.closeObject]

def itemTokens : List Json → List (List Token)
  | [] => []
  | item :: items => item.tokens :: itemTokens items

def memberTokens : List (List Char × Json) → List (List Token)
  | [] => []
  | (name, value) :: members =>
      (.string name :: .colon :: value.tokens) :: memberTokens members

end

def text (json : Json) : String := String.ofList (json.tokens.flatMap Token.chars)

/-- A container that is still open, with its latest part first. -/
inductive Frame
  | array (items : List Json)
  | object (members : List (List Char × Json)) (name : List Char)
  deriving Repr

/-- What a reader expects, inside the containers that are open. -/
inductive Expected
  | anyValue (frames : List Frame)
  | firstItem (frames : List Frame)
  | firstName (frames : List Frame)
  | nextName (members : List (List Char × Json)) (frames : List Frame)
  | colon (members : List (List Char × Json)) (name : List Char) (frames : List Frame)
  | complete (value : Json) (frames : List Frame)
  deriving Repr

namespace Expected

def enter (frames : List Frame) : Token → Option Expected
  | .null => some (.complete .null frames)
  | .boolean value => some (.complete (.boolean value) frames)
  | .number literal => some (.complete (.number literal) frames)
  | .string raw => some (.complete (.string raw) frames)
  | .openArray => some (.firstItem frames)
  | .openObject => some (.firstName frames)
  | _ => none

def step : Expected → Token → Option Expected
  | .anyValue frames, token => enter frames token
  | .firstItem frames, .closeArray => some (.complete (.array []) frames)
  | .firstItem frames, token => enter (.array [] :: frames) token
  | .firstName frames, .closeObject => some (.complete (.object []) frames)
  | .firstName frames, .string name => some (.colon [] name frames)
  | .nextName members frames, .string name => some (.colon members name frames)
  | .colon members name frames, .colon => some (.anyValue (.object members name :: frames))
  | .complete value (.array items :: frames), .comma =>
      some (.anyValue (.array (value :: items) :: frames))
  | .complete value (.array items :: frames), .closeArray =>
      some (.complete (.array (value :: items).reverse) frames)
  | .complete value (.object members name :: frames), .comma =>
      some (.nextName ((name, value) :: members) frames)
  | .complete value (.object members name :: frames), .closeObject =>
      some (.complete (.object ((name, value) :: members).reverse) frames)
  | _, _ => none

def finish : Expected → Option Json
  | .complete value [] => some value
  | _ => none

end Expected

def ofTokens? (tokens : List Token) : Option Json :=
  (tokens.foldlM Expected.step (.anyValue [])).bind Expected.finish

def parse? (text : String) : Option Json := (Token.scan text.toList).bind ofTokens?

end Chip8.Json
