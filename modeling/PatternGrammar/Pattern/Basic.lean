set_option autoImplicit false

/-! # Patterns

A pattern is a tree over characters: single symbols, repetition, juxtaposition and alternation,
three kinds of groups, and links that stand for the body of a captured group. Groups are
identified by the index of their capture, so a link may name a group that stands before it, after
it or around it, and may also name a group that does not exist; whether it does is the subject of
`Pattern.validate`.

The pre-order listing `Pattern.nodes` fixes the numbering that the rest of the library shares: the
rows of a drawing and the rules of a grammar both follow it. -/

namespace PatternGrammar

/-- The tree of a pattern. -/
inductive Pattern where
  /-- The single character `c`. -/
  | symbol (c : Char)
  /-- Any number of repetitions of `body`, none included. -/
  | star (body : Pattern)
  /-- A group that links can name by its `index`. -/
  | capture (body : Pattern) (index : Nat)
  /-- A group that nothing names. -/
  | group (body : Pattern)
  /-- `left` followed by `right`. -/
  | concat (left right : Pattern)
  /-- Either `left` or `right`. -/
  | alt (left right : Pattern)
  /-- The body of the capture with this `index`. -/
  | link (index : Nat)
  /-- A lookahead at `body`. -/
  | lookahead (body : Pattern)
  deriving DecidableEq

namespace Pattern

/-- The direct parts of a pattern, left to right. -/
def children : Pattern → List Pattern
  | symbol _ | link _ => []
  | star body | capture body _ | group body | lookahead body => [body]
  | concat left right | alt left right => [left, right]

/-! ## Traversal in pre-order -/

/-- Every node of a pattern: the node itself before its parts, and the parts left to right. -/
def nodes : Pattern → List Pattern
  | symbol c => [symbol c]
  | star body => star body :: body.nodes
  | capture body index => capture body index :: body.nodes
  | group body => group body :: body.nodes
  | concat left right => concat left right :: (left.nodes ++ right.nodes)
  | alt left right => alt left right :: (left.nodes ++ right.nodes)
  | link index => [link index]
  | lookahead body => lookahead body :: body.nodes

/-- The number of nodes. -/
def size : Pattern → Nat
  | symbol _ | link _ => 1
  | star body | capture body _ | group body | lookahead body => 1 + body.size
  | concat left right | alt left right => 1 + left.size + right.size

theorem length_nodes (p : Pattern) : p.nodes.length = p.size := by
  induction p with
  | symbol c => rfl
  | link index => rfl
  | star body ih | capture body index ih | group body ih | lookahead body ih =>
      simp [nodes, size, ih, Nat.add_comm]
  | concat left right ihl ihr | alt left right ihl ihr =>
      simp [nodes, size, ihl, ihr]; omega

/-! ## Captures -/

/-- The index that a node declares, if the node is a capture. -/
def captureIndex? : Pattern → Option Nat
  | capture _ index => some index
  | _ => none

/-- The indices of all captures, in pre-order and as often as they occur. -/
def captures (p : Pattern) : List Nat :=
  p.nodes.filterMap captureIndex?

/-- The number of captures, equal indices counted separately. -/
def captureCount (p : Pattern) : Nat :=
  p.captures.length

end Pattern

end PatternGrammar
