/-!
Texts in colour. A painter writes a text in a style, or tints it with a colour
and leaves other attributes alone. The painter of a terminal puts control
sequences around a text: the general reset ends a style, and the return to the
terminal's own colour ends a tint.
-/

namespace Chip8.Text

inductive Colour
  | red
  | green
  | yellow
  | grey
  deriving DecidableEq, Repr

structure Style where
  colour : Option Colour
  bold : Bool
  deriving DecidableEq, Repr

namespace Style

def plain : Style := { colour := none, bold := false }

def emphatic : Style := { colour := none, bold := true }

end Style

structure Painter where
  paint : Style → String → String
  tint : Colour → String → String

/-- A text and the style in which it shall be written. -/
structure Styled where
  style : Style
  text : String
  deriving DecidableEq, Repr

def Styled.painted (styled : Styled) (painter : Painter) : String :=
  painter.paint styled.style styled.text

/-! ### The painter of a terminal -/

def control (parameters : String) : String :=
  "\x1b[" ++ parameters ++ "m"

def Colour.parameter : Colour → String
  | .red => "31"
  | .green => "32"
  | .yellow => "33"
  | .grey => "90"

def Style.parameters (style : Style) : List String :=
  (style.colour.map Colour.parameter).toList ++ (if style.bold then ["1"] else [])

namespace Painter

/-- A style that asks for nothing writes the text alone. -/
def terminal : Painter where
  paint style text :=
    match style.parameters with
    | [] => text
    | selected => control (String.intercalate ";" selected) ++ text ++ control "0"
  tint colour text := control colour.parameter ++ text ++ control "39"

end Painter

end Chip8.Text
