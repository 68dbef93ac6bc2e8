/-!
JSON values. Numbers keep the literal they were written with, and strings and
member names keep their escapes, so that a value can be read without deciding
what its parts mean.
-/

namespace Chip8

inductive Json
  | null
  | boolean (value : Bool)
  | number (literal : List Char)
  | string (raw : List Char)
  | array (items : List Json)
  | object (members : List (List Char × Json))
  deriving Repr

end Chip8
