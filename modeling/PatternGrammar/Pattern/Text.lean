import PatternGrammar.Pattern.Basic

set_option autoImplicit false

/-! # Canonical text of a pattern

`Pattern.text` writes a tree in the notation that `Pattern.parse` reads. Alternation binds least,
juxtaposition more, and everything else is a single item. An operand that binds too loosely for
its place is wrapped in a non-capturing group, and nothing else is, so the text of a tree that was
read from a text holds no group which that text did not have.

Both infix forms associate to the left: the left operand of a bar or of a juxtaposition may be
another one of the same kind, the right operand may not. -/

namespace PatternGrammar.Pattern

/-- How tightly the outermost form of a pattern binds: `0` for an alternation, `1` for a
    juxtaposition, `2` for a single item. -/
def strength : Pattern → Nat
  | alt _ _ => 0
  | concat _ _ => 1
  | _ => 2

/-- The text of an operand whose place asks for at least the strength `least`. -/
def enclose (least strength : Nat) (text : String) : String :=
  if strength < least then "(?:" ++ text ++ ")" else text

/-- The canonical text of a pattern. The index of a capture is not written: it is the position of
    the capture among all captures. -/
def text : Pattern → String
  | symbol c => String.singleton c
  | star body => enclose 2 body.strength body.text ++ "*"
  | capture body _ => "(" ++ body.text ++ ")"
  | group body => "(?:" ++ body.text ++ ")"
  | concat left right =>
      enclose 1 left.strength left.text ++ enclose 2 right.strength right.text
  | alt left right => left.text ++ "|" ++ enclose 1 right.strength right.text
  | link index => "(?" ++ toString index ++ ")"
  | lookahead body => "(?=" ++ body.text ++ ")"

end PatternGrammar.Pattern
