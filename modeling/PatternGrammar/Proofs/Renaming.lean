import Mathlib.Data.List.Basic
import PatternGrammar.Grammar.Build
import PatternGrammar.Proofs.Violations

set_option autoImplicit false

/-! # The indices of groups as names

Validation and building only ask whether two indices are the same. So nothing else happens to a
pattern whose groups have other names, as long as different groups keep different names: the same
rules are built, and an error is about the same group (`Pattern.indices_are_names`).

For building this is a statement about two walks. They go through the same states, except that the
completed groups and the links that wait have their other names (`Grammar.Builder.add_rename`). -/

namespace PatternGrammar

variable {r : Nat → Nat}

/-! ## Other names -/

/-- The violation by a group with another name. -/
def Violation.rename (r : Nat → Nat) : Violation → Violation
  | captureInLookahead index => captureInLookahead (r index)
  | nestedLookahead => nestedLookahead
  | undeclaredGroup index => undeclaredGroup (r index)

/-- The error about a group with another name. -/
def BuildError.rename (r : Nat → Nat) : BuildError → BuildError
  | duplicateCapture index => duplicateCapture (r index)
  | unresolvedLink index => unresolvedLink (r index)

namespace Pattern

/-- The pattern with other names for its groups, in the captures and in the links. -/
def rename (r : Nat → Nat) : Pattern → Pattern
  | symbol c => symbol c
  | star body => star (body.rename r)
  | capture body index => capture (body.rename r) (r index)
  | group body => group (body.rename r)
  | concat left right => concat (left.rename r) (right.rename r)
  | alt left right => alt (left.rename r) (right.rename r)
  | link index => link (r index)
  | lookahead body => lookahead (body.rename r)

theorem nodes_rename (p : Pattern) : (p.rename r).nodes = p.nodes.map (rename r) := by
  induction p with
  | symbol c | link index => rfl
  | star body ih | capture body index ih | group body ih | lookahead body ih =>
      simp only [rename, nodes, ih, List.map_cons]
  | concat left right ihl ihr | alt left right ihl ihr =>
      simp only [rename, nodes, ihl, ihr, List.map_cons, List.map_append]

theorem captureIndex?_rename (p : Pattern) : (p.rename r).captureIndex? = p.captureIndex?.map r := by
  cases p <;> rfl

theorem captures_rename (p : Pattern) : (p.rename r).captures = p.captures.map r := by
  unfold captures
  rw [nodes_rename, List.filterMap_map, List.map_filterMap]
  exact congrFun (congrArg _ (funext captureIndex?_rename)) _

/-! ## Validation -/

/-- A name is declared exactly if the other one is. -/
theorem contains_groups_rename (hr : Function.Injective r) (p : Pattern) (index : Nat) :
    (p.rename r).groups.contains (r index) = p.groups.contains index := by
  rw [Bool.eq_iff_iff, contains_groups, contains_groups, captures_rename,
    List.mem_map_of_injective hr]

theorem check_rename {declared declared' : Std.TreeSet Nat}
    (h : ∀ index, declared'.contains (r index) = declared.contains index) (inLookahead : Bool)
    (p : Pattern) :
    (p.rename r).check declared' inLookahead
      = (p.check declared inLookahead).mapError (Violation.rename r) := by
  induction p generalizing inLookahead with
  | symbol c => rfl
  | link index =>
      rw [rename, check, check, h]
      split <;> rfl
  | star body ih | group body ih => exact ih inLookahead
  | capture body index ih =>
      rw [rename, check, check]
      split
      · rfl
      · exact ih inLookahead
  | lookahead body ih =>
      rw [rename, check, check]
      split
      · rfl
      · exact ih true
  | concat left right ihl ihr | alt left right ihl ihr =>
      rw [rename, check, check, ihl, ihr]
      cases left.check declared inLookahead <;> rfl

theorem validate_rename (hr : Function.Injective r) (p : Pattern) :
    (p.rename r).validate = p.validate.mapError (Violation.rename r) :=
  check_rename (p.contains_groups_rename hr) false p

end Pattern

/-! ## Building -/

namespace Grammar.Builder

/-- The state of the walk with other names for the groups. -/
def rename (r : Nat → Nat) (b : Builder) : Builder where
  grammar := b.grammar
  groups := b.groups.map (Prod.map r id)
  pending := b.pending.map (Prod.map id r)

/-- The outcome of a step with other names for the groups, where `f` changes the names in what the
    step gives. -/
def renameOutcome {α : Type} (r : Nat → Nat) (f : α → α) : Except BuildError α → Except BuildError α
  | .ok a => .ok (f a)
  | .error e => .error (e.rename r)

theorem lookup_rename (hr : Function.Injective r) (groups : List (Nat × NonTerminal))
    (index : Nat) : (groups.map (Prod.map r id)).lookup (r index) = groups.lookup index := by
  induction groups with
  | nil => rfl
  | cons entry rest ih =>
      obtain ⟨other, body⟩ := entry
      simp only [List.map_cons, Prod.map_apply, List.lookup_cons, ih]
      by_cases h : index = other
      · rw [h, beq_self_eq_true, beq_self_eq_true]
        rfl
      · rw [beq_false_of_ne h, beq_false_of_ne (hr.ne h)]

/-! ### One step -/

theorem fresh_rename (b : Builder) : (b.rename r).fresh = (b.fresh.1, b.fresh.2.rename r) := rfl

theorem define_rename (b : Builder) (name : NonTerminal) (alternatives : List Alternative) :
    (b.rename r).define name alternatives = (b.define name alternatives).rename r := rfl

theorem completeGroup_rename (hr : Function.Injective r) (b : Builder) (index : Nat)
    (body : NonTerminal) :
    (b.rename r).completeGroup (r index) body
      = renameOutcome r (rename r) (b.completeGroup index body) := by
  unfold completeGroup
  rw [rename, lookup_rename hr]
  cases b.groups.lookup index <;> rfl

theorem addLink_rename (hr : Function.Injective r) (b : Builder) (name : NonTerminal)
    (index : Nat) : (b.rename r).addLink name (r index) = (b.addLink name index).rename r := by
  unfold addLink
  rw [rename, lookup_rename hr]
  cases b.groups.lookup index with
  | some body => rfl
  | none => simp [rename]

theorem resolve_rename (hr : Function.Injective r) (b : Builder) (g : Grammar)
    (link : NonTerminal × Nat) :
    (b.rename r).resolve g (Prod.map id r link) = renameOutcome r id (b.resolve g link) := by
  unfold resolve
  rw [rename, Prod.map_snd, lookup_rename hr]
  cases b.groups.lookup link.2 <;> rfl

/-! ### The whole walk -/

/-- The walk of a pattern whose groups have other names goes through the same states, up to these
    names. -/
theorem add_rename (hr : Function.Injective r) (b : Builder) (p : Pattern) :
    (b.rename r).add (p.rename r) = renameOutcome r (Prod.map id (rename r)) (b.add p) := by
  induction p generalizing b with
  | symbol c => rfl
  | link index =>
      simp only [Pattern.rename, add, fresh_rename, addLink_rename hr]
      rfl
  | star body ih | group body ih | lookahead body ih =>
      simp only [Pattern.rename, add, fresh_rename, ih]
      cases b.fresh.2.add body <;> rfl
  | capture body index ih =>
      simp only [Pattern.rename, add, fresh_rename, ih]
      cases b.fresh.2.add body with
      | error e => rfl
      | ok inner =>
          -- The index is compared with those of the groups completed before.
          simp only [renameOutcome, Prod.map, id, bind, Except.bind, define_rename,
            completeGroup_rename hr]
          cases (inner.2.define b.fresh.1 [[.nonTerminal inner.1]]).completeGroup index inner.1 <;>
            rfl
  | concat left right ihl ihr | alt left right ihl ihr =>
      simp only [Pattern.rename, add, fresh_rename, ihl]
      cases b.fresh.2.add left with
      | error e => rfl
      | ok first =>
          simp only [renameOutcome, Prod.map, id, bind, Except.bind, ihr]
          cases first.2.add right <;> rfl

/-- The links that were put off are resolved alike, and the same one is the first that fails. -/
theorem foldlM_resolve_rename (hr : Function.Injective r) (b : Builder)
    (links : List (NonTerminal × Nat)) (g : Grammar) :
    (links.map (Prod.map id r)).foldlM (b.rename r).resolve g
      = renameOutcome r id (links.foldlM b.resolve g) := by
  induction links generalizing g with
  | nil => rfl
  | cons link rest ih =>
      rw [List.map_cons, List.foldlM_cons, List.foldlM_cons, resolve_rename hr]
      cases b.resolve g link with
      | error e => rfl
      | ok g' => exact ih g'

theorem finish_rename (hr : Function.Injective r) (b : Builder) :
    (b.rename r).finish = renameOutcome r id b.finish :=
  b.foldlM_resolve_rename hr b.pending b.grammar

end Grammar.Builder

namespace Pattern

theorem grammar_rename (hr : Function.Injective r) (p : Pattern) :
    (p.rename r).grammar = p.grammar.mapError (BuildError.rename r) := by
  have hwalk : Grammar.Builder.empty.add (p.rename r)
      = Grammar.Builder.renameOutcome r (Prod.map id (Grammar.Builder.rename r))
          (Grammar.Builder.empty.add p) :=
    Grammar.Builder.add_rename hr .empty p
  unfold grammar
  rw [hwalk]
  cases Grammar.Builder.empty.add p with
  | error e => rfl
  | ok whole =>
      show (whole.2.rename r).finish = whole.2.finish.mapError _
      rw [Grammar.Builder.finish_rename hr]
      cases whole.2.finish <;> rfl

/-- A pattern whose groups get other names, different ones for different groups, is valid as before
    and has the same grammar as before. If it is refused, by validation or by building, then for
    the same reason, and the error has the new name of the group. -/
theorem indices_are_names (hr : Function.Injective r) (p : Pattern) :
    (p.rename r).validate = p.validate.mapError (Violation.rename r)
      ∧ (p.rename r).grammar = p.grammar.mapError (BuildError.rename r) :=
  ⟨p.validate_rename hr, p.grammar_rename hr⟩

/-- The name `2` passes from one group to another one, and the first link has a capture neither
    before nor after. -/
theorem indices_are_names_shifted :
    Function.Injective (· + 1)
      ∧ rename (· + 1) (concat (link 3) (alt (capture (link 2) 1) (capture (symbol 'a') 2)))
        = concat (link 4) (alt (capture (link 3) 2) (capture (symbol 'a') 3))
      ∧ (concat (link 4) (alt (capture (link 3) 2) (capture (symbol 'a') 3))).validate
        = .error (.undeclaredGroup 4)
      ∧ (concat (link 4) (alt (capture (link 3) 2) (capture (symbol 'a') 3))).grammar
        = .error (.unresolvedLink 4) := by
  have hinjective : Function.Injective (· + 1) := fun _ _ => Nat.succ.inj
  obtain ⟨hvalidate, hgrammar⟩ := indices_are_names hinjective
    (concat (link 3) (alt (capture (link 2) 1) (capture (symbol 'a') 2)))
  exact ⟨hinjective, rfl, hvalidate, hgrammar⟩

end Pattern

end PatternGrammar
