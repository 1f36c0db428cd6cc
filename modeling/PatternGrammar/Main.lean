import PatternGrammar.Program

set_option autoImplicit false

/-! # The command line

Connects `PatternGrammar.run` to the arguments and the standard streams. -/

/-- Writes to the standard output. Returns whether all of the text was taken, and else reports the
    error. -/
def PatternGrammar.writeOutput (text : String) : IO Bool := do
  let stdout ← IO.getStdout
  try
    stdout.putStr text
    stdout.flush
    return true
  catch e =>
    IO.eprintln e
    return false

def main (arguments : List String) : IO UInt32 := do
  let input ←
    if PatternGrammar.readsInput arguments then (← IO.getStdin).readBinToEnd
    else pure ByteArray.empty
  let outcome := PatternGrammar.run arguments input (← (← IO.getStdout).isTty)
  IO.eprint outcome.errors
  let written ← PatternGrammar.writeOutput outcome.output
  return outcome.exitStatus written
