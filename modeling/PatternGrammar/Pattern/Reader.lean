import PatternGrammar.Pattern.Basic
import PatternGrammar.Token.Scan

set_option autoImplicit false

/-! # Reading patterns

The notation, with juxtaposition and the bar grouping to the left:

    alternative   = concatenation ('|' concatenation)*
    concatenation = iteration iteration*
    iteration     = atom '*'*
    atom          = '(?:' alternative ')' | '(?=' alternative ')' | '(?' digit ')'
                  | '(' alternative ')' | letter or digit

Each form has a function that reads it at a place in the tokens (`Reader`). What was read comes
back with the place behind it and a proof that this place is further on (`Reading`), which is why
the mutual recursion ends. A repetition in the notation is a function that prolongs a reading as
long as the next token allows.

A capture takes its index when its parenthesis opens, so that indices count the opening
parentheses from left to right. How the next index is found is a parameter of the four functions
(`Counting`): indices have no bound, or they are the numbers of a machine word. -/

namespace PatternGrammar

/-! ## Places and readings -/

/-- A place between two tokens. -/
structure Reader where
  /-- The tokens that follow. -/
  rest : List Token
  /-- The number of tokens before. -/
  offset : Nat
  /-- The number of captures opened before. -/
  opened : Nat

namespace Reader

/-- The token that follows. -/
def current (r : Reader) : Token :=
  r.rest.headD .endOfInput

/-- The place `count` tokens further on. -/
def skip (r : Reader) (count : Nat) : Reader :=
  { r with rest := r.rest.drop count, offset := r.offset + count }

/-- The place behind a parenthesis that opens the capture `index`. -/
def openAs (r : Reader) (index : Nat) : Reader :=
  { r.skip 1 with opened := index }

/-- The error of a token that nothing can begin with. -/
def unexpected (r : Reader) : SyntaxError :=
  .unexpectedToken r.current r.offset

theorem length_skip (r : Reader) (count : Nat) :
    (r.skip count).rest.length = r.rest.length - count := by
  simp [skip]

theorem length_openAs (r : Reader) (index : Nat) :
    (r.openAs index).rest.length = r.rest.length - 1 := by
  simp [openAs, skip]

end Reader

/-- A pattern that was read at the place `start`. -/
structure Reading (start : Reader) where
  /-- What was read. -/
  pattern : Pattern
  /-- The place behind it. -/
  next : Reader
  /-- At least one token was read. -/
  progress : next.rest.length < start.rest.length

namespace Reading

variable {start : Reader}

/-- A reading that goes on to `next` and so becomes one of `pattern`. -/
def extend (done : Reading start) (pattern : Pattern) (next : Reader)
    (further : next.rest.length ≤ done.next.rest.length) : Reading start :=
  ⟨pattern, next, Nat.lt_of_le_of_lt further done.progress⟩

/-- A reading from a later place as a reading of the form `form` around it. -/
def within {inner : Reader} (done : Reading inner) (form : Pattern → Pattern)
    (later : inner.rest.length ≤ start.rest.length) : Reading start :=
  ⟨form done.pattern, done.next, Nat.lt_of_lt_of_le done.progress later⟩

/-- Takes the closing parenthesis that has to follow. -/
def close (done : Reading start) : Except SyntaxError (Reading start) :=
  if done.next.current = .rightParen then
    .ok (done.extend done.pattern (done.next.skip 1) (by simp [Reader.length_skip]))
  else
    .error (.expectedToken ')' done.next.current done.next.offset)

/-- Takes the stars that follow, each of them around all that was read before it. -/
def stars (done : Reading start) : Reading start :=
  match h : done.next.rest with
  | .star :: _ =>
      stars (done.extend (.star done.pattern) (done.next.skip 1) (by simp [Reader.length_skip]))
  | _ => done
termination_by done.next.rest.length
decreasing_by simp [extend, Reader.length_skip, h]

end Reading

/-! ## Counting captures -/

/-- How the captures are counted in a run that ends in `ε` where it yields no pattern. -/
structure Counting (ε : Type) where
  /-- The number of captures after one more, if there were as many as this. -/
  next : Nat → Except ε Nat
  /-- How the run ends if the text is refused. -/
  refuse : SyntaxError → ε

namespace Counting

/-- Counts without a bound. -/
def unbounded : Counting SyntaxError where
  next opened := .ok (opened + 1)
  refuse e := e

/-- What becomes of a number that does not fit into its word. -/
inductive Overflow where
  /-- The run is stopped. -/
  | stops
  /-- Counting begins at zero again. -/
  | wraps
  deriving DecidableEq

/-- How a run that counts in a word ends without a pattern. -/
inductive Halt where
  /-- The text is refused. -/
  | refused (e : SyntaxError)
  /-- The run was stopped at a number that does not fit into the word. -/
  | overflow
  deriving DecidableEq

/-- Counts in a word that holds the numbers below `size`. -/
def word (size : Nat) (overflow : Overflow) : Counting Halt where
  next opened :=
    if opened + 1 < size then
      .ok (opened + 1)
    else
      match overflow with
      | .stops => .error .overflow
      | .wraps => .ok 0
  refuse := .refused

variable {ε : Type} (counting : Counting ε)

/-- An outcome that does not depend on the counting, as one of the run. -/
def lift {α : Type} : Except SyntaxError α → Except ε α
  | .ok a => .ok a
  | .error e => .error (counting.refuse e)

/-! ## The four forms -/

open Reader

mutual

/-- Reads one or more concatenations with bars between them. -/
def alternative (r : Reader) : Except ε (Reading r) := do
  let first ← concatenation r
  moreAlternatives first
termination_by 4 * r.rest.length + 3
decreasing_by
  · omega
  · have := first.progress
    omega

/-- Prolongs an alternation by a bar and a concatenation as long as a bar follows. -/
def moreAlternatives {start : Reader} (done : Reading start) : Except ε (Reading start) :=
  match h : done.next.rest with
  | .bar :: _ => do
      let right ← concatenation (done.next.skip 1)
      moreAlternatives (done.extend (.alt done.pattern right.pattern) right.next
        (Nat.le_trans (Nat.le_of_lt right.progress) (by simp [length_skip])))
  | _ => .ok done
termination_by 4 * done.next.rest.length
decreasing_by
  · simp only [length_skip, h, List.length_cons]
    omega
  · have := right.progress
    simp only [length_skip, h, List.length_cons] at this
    simp only [Reading.extend, h, List.length_cons]
    omega

/-- Reads one or more iterations. -/
def concatenation (r : Reader) : Except ε (Reading r) := do
  let first ← iteration r
  moreIterations first
termination_by 4 * r.rest.length + 2
decreasing_by
  · omega
  · have := first.progress
    omega

/-- Prolongs a concatenation by one more iteration until a bar, a closing parenthesis or the end
    follows. -/
def moreIterations {start : Reader} (done : Reading start) : Except ε (Reading start) :=
  match done.next.current with
  | .bar | .rightParen | .endOfInput => .ok done
  | _ => do
      let right ← iteration done.next
      moreIterations (done.extend (.concat done.pattern right.pattern) right.next
        (Nat.le_of_lt right.progress))
termination_by 4 * done.next.rest.length + 2
decreasing_by
  · omega
  · have := right.progress
    simp only [Reading.extend]
    omega

/-- Reads an atom and the stars behind it. -/
def iteration (r : Reader) : Except ε (Reading r) := do
  let item ← atom r
  return item.stars
termination_by 4 * r.rest.length + 1

/-- Reads a group of any kind, a link or a single character. -/
def atom (r : Reader) : Except ε (Reading r) :=
  match h : r.rest with
  | .symbol c :: _ => .ok ⟨.symbol c, r.skip 1, by simp [length_skip, h]⟩
  | .leftParen :: .question :: .colon :: _ => do
      let body ← alternative (r.skip 3)
      counting.lift (body.within .group (by simp [length_skip])).close
  | .leftParen :: .question :: .equals :: _ => do
      let body ← alternative (r.skip 3)
      counting.lift (body.within .lookahead (by simp [length_skip])).close
  | .leftParen :: .question :: _ =>
      match (r.skip 2).current.digit? with
      | some index =>
          counting.lift (Reading.close ⟨.link index, r.skip 3, by simp [length_skip, h]; omega⟩)
      | none => .error (counting.refuse (r.skip 2).unexpected)
  | .leftParen :: _ => do
      let index ← counting.next r.opened
      let body ← alternative (r.openAs index)
      counting.lift (body.within (.capture · index) (by simp [length_openAs])).close
  | _ => .error (counting.refuse r.unexpected)
termination_by 4 * r.rest.length
decreasing_by
  all_goals
    simp only [length_skip, length_openAs, h, List.length_cons]
    omega

end

end Counting

/-! ## Whole texts -/

namespace Pattern

/-- What becomes of the reading of a whole text. That it opens too many captures is found last, in a
    text that is otherwise a pattern. -/
def finish {start : Reader} (whole : Reading start) : Except SyntaxError Pattern :=
  if whole.next.current ≠ .endOfInput then
    .error (.expectedEnd whole.next.current whole.next.offset)
  else if maxCaptures < whole.next.opened then
    .error (.tooManyCaptures whole.next.opened)
  else
    .ok whole.pattern

/-- Reads a whole text as a pattern. -/
def parseBy {ε : Type} (counting : Counting ε) (text : String) : Except ε Pattern := do
  let tokens ← counting.lift (Token.scan text)
  let whole ← counting.alternative ⟨tokens, 0, 0⟩
  counting.lift (finish whole)

/-- Reads a whole text as a pattern. As the captures are counted from zero on, counting them in a
    word comes to the same unless the text has as many parentheses as the word has numbers
    (`parseBy_word`). -/
def parse (text : String) : Except SyntaxError Pattern :=
  parseBy .unbounded text

end Pattern

end PatternGrammar
