import PatternGrammar.Grammar.Build
import PatternGrammar.Pattern.Reader
import PatternGrammar.Pattern.Validity

set_option autoImplicit false

/-! # From a text to its grammar

The three steps in one: a text is read as a pattern, the pattern is validated, and a valid pattern
is turned into its grammar. -/

namespace PatternGrammar

/-- The step that failed, with its error. -/
inductive ConversionError where
  /-- The text is no pattern. -/
  | unreadable (error : SyntaxError)
  /-- The pattern is not valid. -/
  | invalid (violation : Violation)
  /-- The pattern has no grammar. -/
  | unbuildable (error : BuildError)
  deriving DecidableEq

/-- The wording of an error. -/
def ConversionError.message : ConversionError → String
  | unreadable error => "parse error: " ++ error.message
  | invalid violation => "validation error: " ++ violation.message
  | unbuildable error => "compile error: " ++ error.message

/-- The grammar of the valid pattern that a text is. -/
def convert (text : String) : Except ConversionError Grammar := do
  let pattern ← (Pattern.parse text).mapError .unreadable
  pattern.validate.mapError .invalid
  pattern.grammar.mapError .unbuildable

end PatternGrammar
