import PatternGrammar.Pattern.Basic
import PatternGrammar.Text.Lines

set_option autoImplicit false

/-! # Drawings of patterns

A pattern is drawn as a tree, one row for each node in pre-order. The label of a node stands
behind a branch, which is `└── ` for the last part of its parent and `├── ` for any other, and the
rows below a node are indented by a blank column or by a line that goes on to the next part. The
root has neither. -/

namespace PatternGrammar.Pattern

/-- The label of a node. -/
def label : Pattern → String
  | symbol c => "Symbol: " ++ String.singleton c
  | star _ => "Iterat:"
  | capture _ index => s!"Capture ({index}):"
  | group _ => "NoCapture:"
  | concat _ _ => "Concat:"
  | alt _ _ => "Alternat:"
  | link index => s!"GroupLink (for {index})"
  | lookahead _ => "LookAhead:"

/-- The rows of a pattern whose own row begins with `margin` and whose parts are indented by
    `indent`. -/
def rowsAt (margin indent : String) (p : Pattern) : List String :=
  (margin ++ p.label) ::
    match p with
    | symbol _ | link _ => []
    | star body | capture body _ | group body | lookahead body =>
        body.rowsAt (indent ++ "└── ") (indent ++ "    ")
    | concat left right | alt left right =>
        left.rowsAt (indent ++ "├── ") (indent ++ "│   ") ++
          right.rowsAt (indent ++ "└── ") (indent ++ "    ")

/-- The rows of the drawing of a pattern. -/
def rows (p : Pattern) : List String :=
  p.rowsAt "" ""

/-- The drawing of a pattern. -/
def drawing (p : Pattern) : String :=
  Text.unlines p.rows

end PatternGrammar.Pattern
