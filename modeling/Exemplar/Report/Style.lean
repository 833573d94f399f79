/-!
# Styled text

Text for a terminal can be bold, dim or coloured. A style is written as a sequence of codes in front of
the text and taken back after it; plain text has neither.
-/

namespace Exemplar

/-- How a text stands out. -/
inductive Style where
  | bold
  | dimmed
  | red
  | green
  | yellow
  | cyan
  | boldRed
  | boldGreen
deriving DecidableEq, Repr

namespace Style

def codes : Style → String
  | bold => "1"
  | dimmed => "2"
  | red => "31"
  | green => "32"
  | yellow => "33"
  | cyan => "36"
  | boldRed => "1;31"
  | boldGreen => "1;32"

def reset : String := "\x1b[0m"

def start (style : Style) : String :=
  "\x1b[" ++ style.codes ++ "m"

/-- A text in a style. Where the text takes styles back itself, the style starts anew. -/
def apply (style : Style) (text : String) : String :=
  style.start ++ text.replace reset (reset ++ style.start) ++ reset

/-- A text in a style if there are to be styles at all. -/
def paint (styled : Bool) (style : Style) (text : String) : String :=
  if styled then style.apply text else text

end Style

end Exemplar
