import PatternGrammar.Pattern.Basic
import Std.Data.TreeSet

set_option autoImplicit false

/-! # Validity of patterns

Three rules that the notation cannot enforce: a lookahead holds no capture and no other lookahead,
at any depth, and every link names a capture of the pattern. Where that capture stands does not
matter: before the link, after it, around it or inside a lookahead.

`Pattern.validate` visits the nodes in pre-order and stops at the first one that breaks a rule. -/

namespace PatternGrammar

/-- The ways in which a node breaks a rule. -/
inductive Violation where
  /-- A capture inside a lookahead. -/
  | captureInLookahead (index : Nat)
  /-- A lookahead inside a lookahead. -/
  | nestedLookahead
  /-- A link to a group that the pattern does not declare. -/
  | undeclaredGroup (index : Nat)
  deriving DecidableEq

/-- The wording of a violation. -/
def Violation.message : Violation → String
  | captureInLookahead index => s!"capture group {index} is not allowed inside a lookahead"
  | nestedLookahead => "nested lookaheads are not allowed"
  | undeclaredGroup index => s!"reference to undeclared group {index}"

namespace Pattern

/-- The indices that the captures of a pattern declare. -/
def groups (p : Pattern) : Std.TreeSet Nat :=
  .ofList p.captures

/-- Checks the nodes of a pattern that stands inside a lookahead or not, where `declared` are the
    groups of the whole pattern. -/
def check (declared : Std.TreeSet Nat) (inLookahead : Bool) : Pattern → Except Violation Unit
  | symbol _ => .ok ()
  | star body | group body => body.check declared inLookahead
  | capture body index =>
      if inLookahead then .error (.captureInLookahead index)
      else body.check declared inLookahead
  | concat left right | alt left right => do
      left.check declared inLookahead
      right.check declared inLookahead
  | link index =>
      if declared.contains index then .ok () else .error (.undeclaredGroup index)
  | lookahead body =>
      if inLookahead then .error .nestedLookahead else body.check declared true

/-- Whether a pattern keeps the rules, and if not, the first violation in pre-order. -/
def validate (p : Pattern) : Except Violation Unit :=
  p.check p.groups false

end Pattern

end PatternGrammar
