set_option autoImplicit false

/-! # Emphasis on a terminal

Text that stands out is put between two escape codes: one that sets a color, one that resets it.
Without color the text stays as it is. -/

namespace PatternGrammar.Text

/-- The kinds of text that stand out. -/
inductive Emphasis where
  /-- The label in front of an error, in bold red. -/
  | error
  /-- The head of a rule, in bold cyan. -/
  | head
  deriving DecidableEq

namespace Emphasis

/-- The code that sets the color. -/
def opening : Emphasis → String
  | error => "\x1b[01;31m"
  | head => "\x1b[01;36m"

/-- The code that resets the color. -/
def closing : String := "\x1b[m"

/-- A text with emphasis, if colors are wanted. -/
def apply (emphasis : Emphasis) (color : Bool) (text : String) : String :=
  if color then emphasis.opening ++ text ++ closing else text

end Emphasis

end PatternGrammar.Text
