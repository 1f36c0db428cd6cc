import PatternGrammar.Grammar.Basic
import PatternGrammar.Pattern.Basic

set_option autoImplicit false

/-! # The grammar of a pattern

Every node of a pattern gets a rule, and the rules are numbered in pre-order, so that the whole
pattern is the start. A node refers to the rules of its parts; a link refers to the rule of the
body of its group.

One walk builds the rules. The rule of a node is allocated before its parts are visited and
defined behind them. A link to a group that was completed before is defined at once. Any other
link is put off until the walk is over, for its group may still come, or be under construction
around the link. -/

namespace PatternGrammar

/-- The reasons for which a pattern has no grammar. -/
inductive BuildError where
  /-- Two captures share an index. -/
  | duplicateCapture (index : Nat)
  /-- A link names a group that does not exist. -/
  | unresolvedLink (index : Nat)
  deriving DecidableEq

/-- The wording of an error. -/
def BuildError.message : BuildError → String
  | duplicateCapture index => s!"duplicate capture index {index}"
  | unresolvedLink index => s!"unresolved group link {index}"

namespace Grammar

/-- The state of the walk. -/
structure Builder where
  /-- The rules so far. -/
  grammar : Grammar
  /-- The completed groups, the latest one first: the index and the rule of the body. -/
  groups : List (Nat × NonTerminal)
  /-- The links that were put off, in pre-order: the rule of the link and the index it names. -/
  pending : List (NonTerminal × Nat)

namespace Builder

/-- The state before the walk. -/
def empty : Builder := ⟨.empty, [], []⟩

/-- Allocates a rule. -/
def fresh (b : Builder) : NonTerminal × Builder :=
  let (name, grammar) := b.grammar.fresh
  (name, { b with grammar })

/-- Defines a rule. -/
def define (b : Builder) (name : NonTerminal) (alternatives : List Alternative) : Builder :=
  { b with grammar := b.grammar.define name alternatives }

/-- Records that the group `index` is complete and that `body` is the rule of its body. -/
def completeGroup (b : Builder) (index : Nat) (body : NonTerminal) : Except BuildError Builder :=
  match b.groups.lookup index with
  | some _ => .error (.duplicateCapture index)
  | none => .ok { b with groups := (index, body) :: b.groups }

/-- Defines the rule of a link, or puts it off if the group is not complete yet. -/
def addLink (b : Builder) (name : NonTerminal) (index : Nat) : Builder :=
  match b.groups.lookup index with
  | some body => b.define name [[.nonTerminal body]]
  | none => { b with pending := b.pending ++ [(name, index)] }

/-- Adds the rules of a pattern and gives the name of the first of them. -/
def add (b : Builder) : Pattern → Except BuildError (NonTerminal × Builder)
  | .symbol c =>
      let (name, b) := b.fresh
      .ok (name, b.define name [[.terminal c]])
  | .star body => do
      let (name, b) := b.fresh
      let (inner, b) ← b.add body
      return (name, b.define name [[.nonTerminal inner, .nonTerminal name], [.epsilon]])
  | .capture body index => do
      let (name, b) := b.fresh
      let (inner, b) ← b.add body
      let b ← (b.define name [[.nonTerminal inner]]).completeGroup index inner
      return (name, b)
  | .group body | .lookahead body => do
      let (name, b) := b.fresh
      let (inner, b) ← b.add body
      return (name, b.define name [[.nonTerminal inner]])
  | .concat left right => do
      let (name, b) := b.fresh
      let (first, b) ← b.add left
      let (second, b) ← b.add right
      return (name, b.define name [[.nonTerminal first, .nonTerminal second]])
  | .alt left right => do
      let (name, b) := b.fresh
      let (first, b) ← b.add left
      let (second, b) ← b.add right
      return (name, b.define name [[.nonTerminal first], [.nonTerminal second]])
  | .link index =>
      let (name, b) := b.fresh
      .ok (name, b.addLink name index)

/-- Defines the rule of a link that was put off, now that all groups are complete. -/
def resolve (b : Builder) (g : Grammar) (link : NonTerminal × Nat) : Except BuildError Grammar :=
  match b.groups.lookup link.2 with
  | some body => .ok (g.define link.1 [[.nonTerminal body]])
  | none => .error (.unresolvedLink link.2)

/-- The grammar when all links that were put off are resolved, in their order. -/
def finish (b : Builder) : Except BuildError Grammar :=
  b.pending.foldlM b.resolve b.grammar

end Builder

end Grammar

/-- The grammar of a pattern. Lookaheads are treated as plain groups, and nothing is asked of the
    pattern but that the indices of its captures are distinct and its links have targets. -/
def Pattern.grammar (p : Pattern) : Except BuildError Grammar := do
  let (_, b) ← Grammar.Builder.empty.add p
  b.finish

end PatternGrammar
