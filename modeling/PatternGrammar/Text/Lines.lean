set_option autoImplicit false

/-! # Lines

Cutting a sequence into lines, and joining lines to a text. The cutting is generic in the items,
so that it serves bytes that are not known to be text yet. -/

namespace PatternGrammar.Text

/-! ## Joining -/

/-- The text with the given lines, each of them ended by a line feed. -/
def unlines (lines : List String) : String :=
  String.join (lines.map (· ++ "\n"))

@[simp] theorem unlines_nil : unlines [] = "" := rfl

@[simp] theorem unlines_cons (line : String) (rest : List String) :
    unlines (line :: rest) = line ++ "\n" ++ unlines rest := by
  simp [unlines]

@[simp] theorem unlines_append (first second : List String) :
    unlines (first ++ second) = unlines first ++ unlines second := by
  simp [unlines]

/-! ## Cutting -/

variable {α : Type} [DecidableEq α]

/-- What is left of a line, given in reverse, when the carriage return that may stand at its end
    is counted to the end of the line. -/
def dropReturn (cr : α) : List α → List α
  | [] => []
  | x :: before => if x = cr then before else x :: before

/-- The lines of a sequence whose first line began with the items of `line`, given in reverse. -/
def linesFrom (cr lf : α) (line : List α) : List α → List (List α)
  | [] => if line.isEmpty then [] else [line.reverse]
  | x :: rest =>
      if x = lf then (dropReturn cr line).reverse :: linesFrom cr lf [] rest
      else linesFrom cr lf (x :: line) rest

/-- The lines of a sequence. A line ends with `lf`, and one `cr` right before that `lf` belongs to
    the end of the line. Items behind the last `lf` are a line of their own, all of them. -/
def lines (cr lf : α) (items : List α) : List (List α) :=
  linesFrom cr lf [] items

end PatternGrammar.Text
