import PatternGrammar.Input
import PatternGrammar.Report

set_option autoImplicit false

/-! # The program

What a run of the program writes and how it ends, as a function of its arguments, of the bytes on
its standard input and of whether its output is a terminal. The input matters only if the arguments
hold no pattern. This is what a run does if all that it writes is taken. A run whose output is not
taken is broken off with a status of its own (`Outcome.exitStatus`); what it has written by then is
up to the output, and so is the wording of its error. -/

namespace PatternGrammar

/-- What a run has to write, and the status with which it ends if it can: `0` if all patterns
    passed, `1` if some did not, `2` if the arguments or the input were refused. -/
structure Outcome where
  status : UInt32
  output : String
  errors : String
  deriving DecidableEq

/-- The status of a run, given whether its output could be written: a write that fails is an error
    of the same kind as an input that cannot be read. -/
def Outcome.exitStatus (outcome : Outcome) (written : Bool) : UInt32 :=
  if written then outcome.status else 2

/-- The log of a run: the number of patterns, and then the log of each report. -/
def logLines (reports : List Report) : List String :=
  (s!"{reports.length} pattern(s) to process" :: reports.flatMap Report.log).map
    ("[regex-cfg] " ++ ·)

/-- A run on the patterns that were found. -/
def runOn (options : Options) (terminal : Bool) (patterns : List String) : Outcome :=
  let reports := patterns.map (Report.ofPattern options (options.color.enabled terminal))
  { status := if Report.allPassed reports then 0 else 1
    output := Report.texts reports
    errors := if options.verbose then Text.unlines (logLines reports) else "" }

/-- Whether a run with the given arguments reads its input. -/
def readsInput (arguments : List String) : Bool :=
  match Options.parse arguments with
  | .ok options => options.patterns.isEmpty
  | .error _ => false

/-- A run of the program, as far as it does not depend on whether its output is taken. -/
def run (arguments : List String) (input : ByteArray) (terminal : Bool) : Outcome :=
  match Options.parse arguments with
  | .error e => ⟨2, "", Text.unlines [e.message, Options.usage]⟩
  | .ok options =>
      if options.patterns.isEmpty then
        match readPatterns input with
        | .error e => ⟨2, "", Text.unlines [e.message]⟩
        | .ok patterns => runOn options terminal patterns
      else runOn options terminal options.patterns

end PatternGrammar
