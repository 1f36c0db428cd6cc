import PatternGrammar.Token

set_option autoImplicit false

/-! # Errors in a pattern text

Why a text is not a pattern. A position is the number of characters before the place that the
error is about. -/

namespace PatternGrammar

/-- The largest number of captures that a pattern text may open. A link names its group by one
    digit, so a further capture could not be linked to. -/
def maxCaptures : Nat := 9

/-- The reasons for which a text is refused. -/
inductive SyntaxError where
  /-- The character belongs to no token. -/
  | invalidCharacter (c : Char) (position : Nat)
  /-- An item was to begin at this token, or the kind of a group to be named by it. -/
  | unexpectedToken (found : Token) (position : Nat)
  /-- A particular character had to follow. -/
  | expectedToken (expected : Char) (found : Token) (position : Nat)
  /-- A complete pattern ended before this token. -/
  | expectedEnd (found : Token) (position : Nat)
  /-- The text opens more captures than `maxCaptures`. -/
  | tooManyCaptures (count : Nat)
  deriving DecidableEq

/-- The wording of an error. -/
def SyntaxError.message : SyntaxError → String
  | invalidCharacter c position => s!"invalid character '{c}' at position {position}"
  | unexpectedToken found position => s!"unexpected token {found.name} at position {position}"
  | expectedToken expected found position =>
      s!"expected '{expected}', found {found.name} at position {position}"
  | expectedEnd found position =>
      s!"expected end of expression, found {found.name} at position {position}"
  | tooManyCaptures count => s!"too many capture groups: {count} (at most {maxCaptures})"

end PatternGrammar
