set_option autoImplicit false

/-! # Command line options

Arguments that begin with `-` are options and all others are patterns, until the argument `--`,
behind which all are patterns. Options only set switches: to repeat or to reorder them changes
nothing, except that of several color choices the last one counts. The first argument that looks
like an option and is none is an error. -/

namespace PatternGrammar

/-- When to use colors. -/
inductive ColorChoice where
  /-- On any output. -/
  | always
  /-- On no output. -/
  | never
  /-- If the output is a terminal. -/
  | auto
  deriving DecidableEq

/-- Whether to use colors, given whether the output is a terminal. -/
def ColorChoice.enabled : ColorChoice → Bool → Bool
  | always, _ => true
  | never, _ => false
  | auto, terminal => terminal

/-- What the arguments ask for. -/
structure Options where
  /-- The patterns to report on. -/
  patterns : List String := []
  /-- Whether a report draws the tree of the pattern. -/
  showTree : Bool := true
  /-- Whether a report lists the grammar. -/
  showGrammar : Bool := true
  /-- Whether a report goes on to the grammar of a pattern that is not valid. -/
  force : Bool := false
  /-- Whether to log the steps. -/
  verbose : Bool := false
  /-- When to use colors. -/
  color : ColorChoice := .never
  deriving DecidableEq

/-- The reasons for which arguments are refused. -/
inductive UsageError where
  /-- There is no such option. -/
  | unknownOption (argument : String)
  /-- There is no such choice of colors. -/
  | invalidColor (value : String)
  deriving DecidableEq

/-- The wording of an error. -/
def UsageError.message : UsageError → String
  | unknownOption argument => s!"unknown option '{argument}'"
  | invalidColor value =>
      s!"invalid value for --color: '{value}' (expected always, never or auto)"

/-! ## Single arguments -/

/-- A single option. -/
inductive Flag where
  /-- Log the steps. -/
  | verbose
  /-- Draw no trees. -/
  | hideTree
  /-- List no grammars. -/
  | hideGrammar
  /-- Go on with patterns that are not valid. -/
  | force
  /-- Use colors as `choice` says. -/
  | color (choice : ColorChoice)
  deriving DecidableEq

/-- The option that an argument is. -/
def Flag.ofArgument (argument : String) : Except UsageError Flag :=
  match argument with
  | "-v" | "--verbose" => .ok .verbose
  | "--no-ast" => .ok .hideTree
  | "--no-grammar" => .ok .hideGrammar
  | "--force" => .ok .force
  | "--color=always" => .ok (.color .always)
  | "--color=never" => .ok (.color .never)
  | "--color=auto" => .ok (.color .auto)
  | _ =>
      match "--color=".toList.isPrefixOf? argument.toList with
      | some value => .error (.invalidColor (String.ofList value))
      | none => .error (.unknownOption argument)

namespace Options

/-- Sets a switch. -/
def set (o : Options) : Flag → Options
  | .verbose => { o with verbose := true }
  | .hideTree => { o with showTree := false }
  | .hideGrammar => { o with showGrammar := false }
  | .force => { o with force := true }
  | .color choice => { o with color := choice }

/-- Adds patterns behind those that are there. -/
def addPatterns (o : Options) (patterns : List String) : Options :=
  { o with patterns := o.patterns ++ patterns }

/-! ## All arguments -/

/-- The options that result from `o` and further arguments. -/
def parseFrom (o : Options) : List String → Except UsageError Options
  | [] => .ok o
  | argument :: rest =>
      if argument = "--" then .ok (o.addPatterns rest)
      else if argument.toList.head? = some '-' then
        match Flag.ofArgument argument with
        | .ok flag => (o.set flag).parseFrom rest
        | .error e => .error e
      else (o.addPatterns [argument]).parseFrom rest

/-- The options that a list of arguments asks for. -/
def parse (arguments : List String) : Except UsageError Options :=
  parseFrom {} arguments

/-- The line that shows how the program is called. -/
def usage : String :=
  "usage: regex-cfg [-v] [--no-ast] [--no-grammar] [--force] " ++
    "[--color=always|never|auto] [PATTERN ...]"

end Options

end PatternGrammar
