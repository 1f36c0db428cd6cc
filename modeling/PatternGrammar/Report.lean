import PatternGrammar.Grammar.Build
import PatternGrammar.Grammar.Text
import PatternGrammar.Options
import PatternGrammar.Pattern.Drawing
import PatternGrammar.Pattern.Reader
import PatternGrammar.Pattern.Validity

set_option autoImplicit false

/-! # Reports

A report on a pattern shows what each step makes of it: the text without blanks, the drawing of
the tree, the verdict of the validation, and the grammar. It ends at the first step that fails,
except that `Options.force` takes it past the validation. A pattern passes if no step failed. -/

namespace PatternGrammar

/-- The report on one pattern. -/
structure Report where
  /-- Whether no step failed. -/
  passed : Bool
  /-- What is written to the output. -/
  lines : List String
  /-- What is logged of the steps. -/
  log : List String
  deriving DecidableEq

namespace Report

/-- A pattern as a user typed it, without the blanks between its items. -/
def stripBlanks (pattern : String) : String :=
  String.ofList (pattern.toList.filter (· ≠ ' '))

theorem toList_stripBlanks (pattern : String) :
    (stripBlanks pattern).toList = pattern.toList.filter (· ≠ ' ') :=
  String.toList_ofList

theorem eq_stripBlanks_iff {text pattern : String} :
    text = stripBlanks pattern ↔ text.toList = pattern.toList.filter (· ≠ ' ') := by
  rw [← String.toList_inj, toList_stripBlanks]

/-- Adds lines to the output. -/
def write (r : Report) (lines : List String) : Report :=
  { r with lines := r.lines ++ lines }

/-- Adds a line to the log. -/
def note (r : Report) (entry : String) : Report :=
  { r with log := r.log ++ [entry] }

/-- Adds an error, with which the pattern fails. -/
def fail (r : Report) (color : Bool) (message : String) : Report :=
  { r.write [Text.Emphasis.error.apply color "Error:" ++ " " ++ message] with passed := false }

/-- Goes on to the grammar of the pattern `tree`, which was read from `text`. -/
def addGrammar (r : Report) (options : Options) (color : Bool) (text : String) (tree : Pattern) :
    Report :=
  match tree.grammar with
  | .error e => r.fail color e.message
  | .ok grammar =>
      (r.note s!"compiled \"{text}\" into {grammar.size} rule(s)").write
        (if options.showGrammar then grammar.emphasisedRows color else [])

/-- Goes on from the validation of the pattern `tree`, which was read from `text`. -/
def addVerdict (r : Report) (options : Options) (color : Bool) (text : String) (tree : Pattern) :
    Report :=
  match tree.validate with
  | .ok () => (r.write ["Regular expression is valid."]).addGrammar options color text tree
  | .error violation =>
      let failed := r.fail color violation.message
      if options.force then failed.addGrammar options color text tree else failed

/-- The report on a pattern as a user typed it. -/
def ofPattern (options : Options) (color : Bool) (pattern : String) : Report :=
  let text := stripBlanks pattern
  let echo : Report := ⟨true, ["Pattern: " ++ text], []⟩
  match Pattern.parse text with
  | .error e => echo.fail color e.message
  | .ok tree =>
      ((echo.note s!"parsed \"{text}\" with {tree.captureCount} capture group(s)").write
        (if options.showTree then tree.rows else [])).addVerdict options color text tree

/-- What a report writes to the output. -/
def text (r : Report) : String :=
  Text.unlines r.lines

/-- What several reports write to the output: an empty line stands between any two of them. -/
def texts (reports : List Report) : String :=
  "\n".intercalate (reports.map text)

/-- Whether all patterns passed. -/
def allPassed (reports : List Report) : Bool :=
  reports.all passed

end Report

end PatternGrammar
