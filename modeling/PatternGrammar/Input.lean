import PatternGrammar.Text.Blank
import PatternGrammar.Text.Lines

set_option autoImplicit false

/-! # Patterns from an input

An input is a sequence of bytes that holds one pattern on each line that is not blank. It is cut
into lines before it is decoded. As the byte of the line feed occurs in the encoding of no other
character, this gives the lines of the decoded whole. -/

namespace PatternGrammar

/-- The reasons for which an input is refused. -/
inductive InputError where
  /-- Some line is not UTF-8. -/
  | invalidEncoding
  deriving DecidableEq

/-- The wording of an error. -/
def InputError.message : InputError → String
  | invalidEncoding =>
      "failed to read patterns from stdin: stream did not contain valid UTF-8"

/-- The text that a line of bytes encodes. -/
def decodeLine (bytes : List UInt8) : Except InputError String :=
  match String.fromUTF8? ⟨bytes.toArray⟩ with
  | some line => .ok line
  | none => .error .invalidEncoding

/-- The byte of the carriage return. -/
def carriageReturn : UInt8 := 13

/-- The byte of the line feed. -/
def lineFeed : UInt8 := 10

/-- The patterns on an input, one on each line that is not blank. Nothing is taken from an input
    of which any line is not UTF-8. -/
def readPatterns (input : ByteArray) : Except InputError (List String) := do
  let lines ← (Text.lines carriageReturn lineFeed input.data.toList).mapM decodeLine
  return lines.filter (! Text.isBlank ·)

end PatternGrammar
