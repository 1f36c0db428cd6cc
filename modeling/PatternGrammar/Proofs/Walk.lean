import PatternGrammar.Grammar.Build
import PatternGrammar.Proofs.Preorder

set_option autoImplicit false

/-! # The walk of a builder in closed form

`Builder.add` allocates the rule of a node before it visits the parts of the node and defines it
behind them, while completed groups and links that have to wait collect in the state. What comes
out of it is simpler than that. The rules, the completed groups and the waiting links of a pattern
are three lists that stand behind what was there before, and each of them is determined by the
pattern, the number of its first rule and the groups that were complete before it (`add_eq`). The
walk fails exactly if an index is completed twice. -/

namespace PatternGrammar

open Grammar (Alternative)

namespace Pattern

/-! ## What a pattern adds -/

/-- The groups of a pattern in the order in which they are completed, each with the rule of its
    body, where `number` is the number of the rule of the pattern itself. -/
def completions (number : Nat) : Pattern → List (Nat × NonTerminal)
  | symbol _ | link _ => []
  | star body | group body | lookahead body => body.completions (number + 1)
  | capture body index => body.completions (number + 1) ++ [(index, ⟨number + 1⟩)]
  | concat left right | alt left right =>
      left.completions (number + 1) ++ right.completions (number + 1 + left.size)

/-- The rule of a single node that stands at place `number`. A link refers to the body that
    `groups` has for its index, and has no alternative if there is none. -/
def rule (groups : List (Nat × NonTerminal)) (number : Nat) : Pattern → List Alternative
  | symbol c => [[.terminal c]]
  | star _ => [[.nonTerminal ⟨number + 1⟩, .nonTerminal ⟨number⟩], [.epsilon]]
  | capture _ _ | group _ | lookahead _ => [[.nonTerminal ⟨number + 1⟩]]
  | concat left _ => [[.nonTerminal ⟨number + 1⟩, .nonTerminal ⟨number + 1 + left.size⟩]]
  | alt left _ => [[.nonTerminal ⟨number + 1⟩], [.nonTerminal ⟨number + 1 + left.size⟩]]
  | link index =>
      match groups.lookup index with
      | some body => [[.nonTerminal body]]
      | none => []

/-- The rules of a pattern as the walk leaves them: those of waiting links are still empty. The
    groups that a link sees are the ones completed before it, `groups` among them. -/
def draft (groups : List (Nat × NonTerminal)) (number : Nat) (p : Pattern) :
    List (List Alternative) :=
  p.rule groups number ::
    match p with
    | symbol _ | link _ => []
    | star body | capture body _ | group body | lookahead body => body.draft groups (number + 1)
    | concat left right | alt left right =>
        left.draft groups (number + 1) ++
          right.draft ((left.completions (number + 1)).reverse ++ groups)
            (number + 1 + left.size)

/-- The links of a pattern that have to wait, in pre-order. -/
def waiting (groups : List (Nat × NonTerminal)) (number : Nat) :
    Pattern → List (NonTerminal × Nat)
  | symbol _ => []
  | star body | capture body _ | group body | lookahead body => body.waiting groups (number + 1)
  | concat left right | alt left right =>
      left.waiting groups (number + 1) ++
        right.waiting ((left.completions (number + 1)).reverse ++ groups) (number + 1 + left.size)
  | link index =>
      match groups.lookup index with
      | some _ => []
      | none => [(⟨number⟩, index)]

theorem length_draft (groups : List (Nat × NonTerminal)) (number : Nat) (p : Pattern) :
    (p.draft groups number).length = p.size := by
  induction p generalizing groups number with
  | symbol c | link index => rfl
  | star body ih | capture body index ih | group body ih | lookahead body ih =>
      simp only [draft, size, List.length_cons, ih, Nat.add_comm]
  | concat left right ihl ihr | alt left right ihl ihr =>
      simp only [draft, size, List.length_cons, List.length_append, ihl, ihr]
      omega

end Pattern

namespace Grammar

/-- Defining a rule leaves all rules before it and behind it as they are. -/
theorem define_append (before : Array (List Alternative)) (old new : List Alternative)
    (behind : List (List Alternative)) :
    define ⟨before ++ (old :: behind).toArray⟩ ⟨before.size + 1⟩ new
      = ⟨before ++ (new :: behind).toArray⟩ := by
  simp only [define, mk.injEq]
  rw [Array.setIfInBounds_append_right (Nat.le_refl _), Nat.sub_self, List.setIfInBounds_toArray]
  rfl

namespace Builder

/-! ## The walk -/

/-- Refuses the first of `entries` whose index is taken by an entry before it or by `groups`. -/
def checkDistinct (groups : List (Nat × NonTerminal)) :
    List (Nat × NonTerminal) → Except BuildError Unit
  | [] => .ok ()
  | entry :: rest =>
      match groups.lookup entry.1 with
      | some _ => .error (.duplicateCapture entry.1)
      | none => checkDistinct (entry :: groups) rest

theorem checkDistinct_append (groups first second : List (Nat × NonTerminal)) :
    checkDistinct groups (first ++ second)
      = (checkDistinct groups first >>= fun _ =>
          checkDistinct (first.reverse ++ groups) second) := by
  induction first generalizing groups with
  | nil => rfl
  | cons entry rest ih =>
      simp only [List.cons_append, checkDistinct]
      split
      · rfl
      · rw [ih, List.reverse_cons, List.append_assoc, List.singleton_append]

theorem completeGroup_eq (b : Builder) (index : Nat) (body : NonTerminal) :
    b.completeGroup index body
      = (checkDistinct b.groups [(index, body)] >>= fun _ =>
          pure { b with groups := (index, body) :: b.groups }) := by
  simp only [completeGroup, checkDistinct]
  cases b.groups.lookup index <;> rfl

/-- The number of the rule that is allocated next. -/
def nextNumber (b : Builder) : Nat := b.grammar.size + 1

@[simp] theorem fresh_fst (b : Builder) : b.fresh.1 = ⟨b.nextNumber⟩ := rfl

@[simp] theorem groups_fresh (b : Builder) : b.fresh.2.groups = b.groups := rfl

@[simp] theorem pending_fresh (b : Builder) : b.fresh.2.pending = b.pending := rfl

@[simp] theorem nextNumber_fresh (b : Builder) : b.fresh.2.nextNumber = b.nextNumber + 1 :=
  congrArg (· + 1) (Grammar.size_fresh b.grammar)

/-- The state behind the walk of a pattern. -/
def walked (b : Builder) (p : Pattern) : Builder where
  grammar := ⟨b.grammar.rules ++ (p.draft b.groups b.nextNumber).toArray⟩
  groups := (p.completions b.nextNumber).reverse ++ b.groups
  pending := b.pending ++ p.waiting b.groups b.nextNumber

@[simp] theorem groups_walked (b : Builder) (p : Pattern) :
    (b.walked p).groups = (p.completions b.nextNumber).reverse ++ b.groups := rfl

@[simp] theorem nextNumber_walked (b : Builder) (p : Pattern) :
    (b.walked p).nextNumber = b.nextNumber + p.size := by
  simp only [walked, nextNumber, Grammar.size, Array.size_append, List.size_toArray,
    Pattern.length_draft]
  omega

/-- The rule that was allocated for a node is still in its place when the parts have been walked,
    and defining it changes no other one. -/
theorem define_fresh_append (b : Builder) (alternatives : List Alternative)
    (behind : List (List Alternative)) (groups : List (Nat × NonTerminal))
    (pending : List (NonTerminal × Nat)) :
    define ⟨⟨b.fresh.2.grammar.rules ++ behind.toArray⟩, groups, pending⟩ ⟨b.nextNumber⟩
        alternatives
      = ⟨⟨b.grammar.rules ++ (alternatives :: behind).toArray⟩, groups, pending⟩ := by
  have hpush : b.fresh.2.grammar.rules ++ behind.toArray
      = b.grammar.rules ++ ([] :: behind).toArray := by
    simp [fresh, Grammar.fresh]
  rw [define, hpush, nextNumber, Grammar.size, Grammar.define_append]

/-- The state behind a node without parts. -/
theorem define_fresh (b : Builder) (alternatives : List Alternative) :
    b.fresh.2.define ⟨b.nextNumber⟩ alternatives
      = ⟨⟨b.grammar.rules ++ [alternatives].toArray⟩, b.groups, b.pending⟩ := by
  have h := b.define_fresh_append alternatives [] b.groups b.pending
  rwa [Array.append_empty] at h

/-- The state behind a node with one part, apart from the group that the node may complete. -/
theorem define_walked (b : Builder) (body : Pattern) (alternatives : List Alternative) :
    (b.fresh.2.walked body).define ⟨b.nextNumber⟩ alternatives
      = { grammar := ⟨b.grammar.rules
            ++ (alternatives :: body.draft b.groups (b.nextNumber + 1)).toArray⟩
          groups := (body.completions (b.nextNumber + 1)).reverse ++ b.groups
          pending := b.pending ++ body.waiting b.groups (b.nextNumber + 1) } := by
  rw [walked, define_fresh_append, groups_fresh, pending_fresh, nextNumber_fresh]

/-- The state behind a node with two parts. -/
theorem define_walked_walked (b : Builder) (left right : Pattern)
    (alternatives : List Alternative) :
    ((b.fresh.2.walked left).walked right).define ⟨b.nextNumber⟩ alternatives
      = { grammar := ⟨b.grammar.rules ++ (alternatives
            :: (left.draft b.groups (b.nextNumber + 1)
              ++ right.draft ((left.completions (b.nextNumber + 1)).reverse ++ b.groups)
                (b.nextNumber + 1 + left.size))).toArray⟩
          groups := (left.completions (b.nextNumber + 1)
            ++ right.completions (b.nextNumber + 1 + left.size)).reverse ++ b.groups
          pending := b.pending ++ (left.waiting b.groups (b.nextNumber + 1)
            ++ right.waiting ((left.completions (b.nextNumber + 1)).reverse ++ b.groups)
              (b.nextNumber + 1 + left.size)) } := by
  rw [walked, nextNumber_walked, groups_walked, walked, nextNumber_fresh, groups_fresh,
    pending_fresh]
  simp only [Array.append_assoc, List.append_toArray, define_fresh_append, List.reverse_append,
    List.append_assoc]

/-- The walk of a pattern fails exactly if it completes an index twice or one that is complete
    already, and else it appends the lists of the pattern to the state. -/
theorem add_eq (b : Builder) (p : Pattern) :
    b.add p = (checkDistinct b.groups (p.completions b.nextNumber) >>= fun _ =>
      pure (⟨b.nextNumber⟩, b.walked p)) := by
  induction p generalizing b with
  | symbol c =>
      simp only [add, fresh_fst, define_fresh, walked, Pattern.waiting, List.append_nil]
      rfl
  | link index =>
      simp only [add, fresh_fst, addLink, groups_fresh, define_fresh, walked, Pattern.draft,
        Pattern.rule, Pattern.waiting]
      cases hgroup : b.groups.lookup index with
      | some body =>
          simp only [List.append_nil]
          rfl
      | none =>
          simp only [fresh, Grammar.fresh, Array.push_eq_append]
          rfl
  | star body ih | group body ih | lookahead body ih =>
      simp only [add, ih, bind_assoc, pure_bind, groups_fresh, nextNumber_fresh, fresh_fst,
        define_walked]
      rfl
  | capture body index ih =>
      simp only [add, ih, bind_assoc, pure_bind, groups_fresh, nextNumber_fresh, fresh_fst,
        define_walked, completeGroup_eq, Pattern.completions, checkDistinct_append]
      simp only [walked, Pattern.completions, List.reverse_append, List.append_assoc]
      rfl
  | concat left right ihl ihr | alt left right ihl ihr =>
      -- The right part is walked from the state behind the left one, not from that of the node.
      simp only [add, ihl, ihr, bind_assoc, pure_bind, groups_fresh, nextNumber_fresh, fresh_fst,
        groups_walked, nextNumber_walked, define_walked_walked, Pattern.completions,
        checkDistinct_append]
      rfl

end Builder

end Grammar

end PatternGrammar
