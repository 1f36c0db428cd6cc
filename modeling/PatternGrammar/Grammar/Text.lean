import PatternGrammar.Grammar.Basic
import PatternGrammar.Text.Emphasis
import PatternGrammar.Text.Lines

set_option autoImplicit false

/-! # Text of grammars

A grammar is listed one rule to a line, as `N1 → N2 N3 | epsilon`: alternatives stand between bars,
symbols between blanks. The heads of the rules can be emphasised, which is the only difference
between the plain listing and a colored one. -/

namespace PatternGrammar

/-- A non-terminal as it is written: `N1`, `N2`, and so on. -/
def NonTerminal.text (name : NonTerminal) : String :=
  "N" ++ toString name.number

namespace Grammar

/-- A symbol as it is written. -/
def Symbol.text : Symbol → String
  | terminal c => String.singleton c
  | nonTerminal name => name.text
  | epsilon => "epsilon"

/-- The symbols of an alternative with blanks between them. -/
def alternativeText (alternative : Alternative) : String :=
  " ".intercalate (alternative.map Symbol.text)

/-- Alternatives with bars between them. -/
def alternativesText (alternatives : List Alternative) : String :=
  " | ".intercalate (alternatives.map alternativeText)

/-- One line for each rule, with the heads written by `head`. -/
def rows (g : Grammar) (head : NonTerminal → String) : List String :=
  g.entries.map fun (name, alternatives) => head name ++ " → " ++ alternativesText alternatives

/-- The plain listing of a grammar. -/
def text (g : Grammar) : String :=
  Text.unlines (g.rows NonTerminal.text)

/-- One line for each rule, with emphasis on the heads if colors are wanted. -/
def emphasisedRows (g : Grammar) (color : Bool) : List String :=
  g.rows fun name => Text.Emphasis.head.apply color name.text

/-- The listing of a grammar with emphasis on the heads if colors are wanted. -/
def emphasisedText (g : Grammar) (color : Bool) : String :=
  Text.unlines (g.emphasisedRows color)

end Grammar

end PatternGrammar
