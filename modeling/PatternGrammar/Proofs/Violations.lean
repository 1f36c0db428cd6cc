import PatternGrammar.Pattern.Validity
import PatternGrammar.Proofs.Placement

set_option autoImplicit false

/-! # The first violation

The rules of validity are about single nodes: about what a node is, what it is inside of, at any
depth, and which groups the whole pattern declares (`Pattern.Breaks`). The check of a pattern knows
less, for it goes down with one flag in the place of all that is around a node, and it stops early.
What it finds is the first node in pre-order that breaks a rule
(`Pattern.validate_eq_first_violation`). -/

namespace PatternGrammar.Pattern

/-! ## Nodes and what is around them -/

/-- The nodes of a pattern in pre-order, each behind the nodes that it is inside of, the innermost
    one first. Those that the pattern itself is inside of are `around`. -/
def lineages (around : List Pattern) (p : Pattern) : List (List Pattern × Pattern) :=
  (around, p) ::
    match p with
    | symbol _ | link _ => []
    | star body | capture body _ | group body | lookahead body => body.lineages (p :: around)
    | concat left right | alt left right =>
        left.lineages (p :: around) ++ right.lineages (p :: around)

theorem map_snd_lineages (around : List Pattern) (p : Pattern) :
    (p.lineages around).map Prod.snd = p.nodes := by
  induction p generalizing around with
  | symbol c | link index => rfl
  | star body ih | capture body index ih | group body ih | lookahead body ih =>
      simp only [lineages, nodes, List.map_cons, ih]
  | concat left right ihl ihr | alt left right ihl ihr =>
      simp only [lineages, nodes, List.map_cons, List.map_append, ihl, ihr]

/-! ## The rules -/

/-- The node with `around` around it breaks a rule, as a node of `p`. -/
inductive Breaks (p : Pattern) (around : List Pattern) : Pattern → Violation → Prop where
  | capture {body inner : Pattern} {index : Nat} (inside : lookahead inner ∈ around) :
      Breaks p around (capture body index) (.captureInLookahead index)
  | lookahead {body inner : Pattern} (inside : lookahead inner ∈ around) :
      Breaks p around (lookahead body) .nestedLookahead
  | link {index : Nat} (undeclared : ∀ body, capture body index ∉ p.nodes) :
      Breaks p around (link index) (.undeclaredGroup index)

theorem mem_captures_iff {p : Pattern} {index : Nat} :
    index ∈ p.captures ↔ ∃ body, capture body index ∈ p.nodes := by
  rw [captures, List.mem_filterMap]
  constructor
  · rintro ⟨node, hnode, hindex⟩
    obtain ⟨body, rfl⟩ := captureIndex?_eq_some_iff.1 hindex
    exact ⟨body, hnode⟩
  · rintro ⟨body, hnode⟩
    exact ⟨capture body index, hnode, rfl⟩

/-- Whether a node is a lookahead. -/
def isLookahead : Pattern → Bool
  | lookahead _ => true
  | _ => false

theorem any_isLookahead_iff {around : List Pattern} :
    around.any isLookahead = true ↔ ∃ inner, lookahead inner ∈ around := by
  rw [List.any_eq_true]
  constructor
  · rintro ⟨node, hmem, hnode⟩
    cases node with
    | lookahead inner => exact ⟨inner, hmem⟩
    | _ => simp [isLookahead] at hnode
  · rintro ⟨inner, hmem⟩
    exact ⟨lookahead inner, hmem, rfl⟩

/-- The rule that a node breaks, if it breaks one. -/
def violation? (p : Pattern) : List Pattern × Pattern → Option Violation
  | (around, capture _ index) =>
      if around.any isLookahead then some (.captureInLookahead index) else none
  | (around, lookahead _) => if around.any isLookahead then some .nestedLookahead else none
  | (_, link index) => if index ∈ p.captures then none else some (.undeclaredGroup index)
  | (_, symbol _) | (_, star _) | (_, group _) | (_, concat _ _) | (_, alt _ _) => none

theorem violation?_eq_some_iff {p : Pattern} {entry : List Pattern × Pattern} {v : Violation} :
    p.violation? entry = some v ↔ p.Breaks entry.1 entry.2 v := by
  obtain ⟨around, node⟩ := entry
  constructor
  · intro h
    cases node with
    | capture body index =>
        obtain ⟨hinside, hv⟩ := Option.ite_none_right_eq_some.1 h
        obtain ⟨inner, hinner⟩ := any_isLookahead_iff.1 hinside
        obtain rfl := Option.some.inj hv
        exact .capture hinner
    | lookahead body =>
        obtain ⟨hinside, hv⟩ := Option.ite_none_right_eq_some.1 h
        obtain ⟨inner, hinner⟩ := any_isLookahead_iff.1 hinside
        obtain rfl := Option.some.inj hv
        exact .lookahead hinner
    | link index =>
        obtain ⟨hnot, hv⟩ := Option.ite_none_left_eq_some.1 h
        obtain rfl := Option.some.inj hv
        exact .link fun body hbody => hnot (mem_captures_iff.2 ⟨body, hbody⟩)
    | symbol | star | group | concat | alt => exact nomatch h
  · intro h
    cases h with
    | capture inside => exact if_pos (any_isLookahead_iff.2 ⟨_, inside⟩)
    | lookahead inside => exact if_pos (any_isLookahead_iff.2 ⟨_, inside⟩)
    | link undeclared =>
        refine if_neg fun hmem => ?_
        obtain ⟨body, hbody⟩ := mem_captures_iff.1 hmem
        exact undeclared body hbody

theorem violation?_eq_none_iff {p : Pattern} {entry : List Pattern × Pattern} :
    p.violation? entry = none ↔ ∀ v, ¬ p.Breaks entry.1 entry.2 v := by
  rw [Option.eq_none_iff_forall_ne_some]
  exact forall_congr' fun v => not_congr violation?_eq_some_iff

/-! ## The check -/

/-- The verdict on nodes that are visited in this order. -/
def verdict (p : Pattern) (entries : List (List Pattern × Pattern)) : Except Violation Unit :=
  match entries.findSome? p.violation? with
  | some v => .error v
  | none => .ok ()

theorem verdict_cons (p : Pattern) (entry : List Pattern × Pattern)
    (rest : List (List Pattern × Pattern)) :
    p.verdict (entry :: rest) = match p.violation? entry with
      | some v => .error v
      | none => p.verdict rest := by
  unfold verdict
  rw [List.findSome?_cons]
  cases p.violation? entry <;> rfl

theorem verdict_append (p : Pattern) (first second : List (List Pattern × Pattern)) :
    p.verdict (first ++ second) = (p.verdict first >>= fun _ => p.verdict second) := by
  unfold verdict
  rw [List.findSome?_append]
  cases first.findSome? p.violation? <;> rfl

theorem contains_groups (p : Pattern) (index : Nat) :
    p.groups.contains index = true ↔ index ∈ p.captures := by
  rw [groups, Std.TreeSet.contains_ofList, List.contains_iff_mem]

/-- The check of a part of `root` finds the first violation in it. The flag says all that the rules
    ask about what is around the part. -/
theorem check_eq_verdict (root : Pattern) (around : List Pattern) (p : Pattern) :
    p.check root.groups (around.any isLookahead) = root.verdict (p.lineages around) := by
  induction p generalizing around with
  | symbol c => rfl
  | link index =>
      simp only [check, contains_groups, lineages, verdict_cons, violation?]
      by_cases h : index ∈ root.captures
      · rw [if_pos h, if_pos h]
        rfl
      · rw [if_neg h, if_neg h]
  | star body ih | group body ih =>
      rw [lineages, verdict_cons, violation?, ← ih]
      rfl
  | capture body index ih =>
      rw [check, lineages, verdict_cons, violation?]
      by_cases h : around.any isLookahead = true
      · rw [if_pos h, if_pos h]
      · rw [if_neg h, if_neg h, ← ih]
        rfl
  | lookahead body ih =>
      rw [check, lineages, verdict_cons, violation?]
      by_cases h : around.any isLookahead = true
      · rw [if_pos h, if_pos h]
      · -- Whatever stands below is inside of this lookahead.
        rw [if_neg h, if_neg h, ← ih]
        rfl
  | concat left right ihl ihr | alt left right ihl ihr =>
      rw [check, lineages, verdict_cons, violation?, verdict_append, ← ihl, ← ihr]
      rfl

theorem validate_eq_verdict (p : Pattern) : p.validate = p.verdict (p.lineages []) :=
  check_eq_verdict p [] p

theorem verdict_eq_ok_iff {p : Pattern} {entries : List (List Pattern × Pattern)} :
    p.verdict entries = .ok () ↔ ∀ entry ∈ entries, p.violation? entry = none := by
  rw [← List.findSome?_eq_none_iff, verdict]
  cases entries.findSome? p.violation? <;> simp

theorem verdict_eq_error_iff {p : Pattern} {entries : List (List Pattern × Pattern)}
    {v : Violation} : p.verdict entries = .error v ↔ ∃ before entry behind,
      entries = before ++ entry :: behind ∧ p.violation? entry = some v
        ∧ ∀ earlier ∈ before, p.violation? earlier = none := by
  rw [← List.findSome?_eq_some_iff, verdict]
  cases entries.findSome? p.violation? <;> simp

/-- A pattern is valid if none of its nodes breaks a rule. Otherwise the error is that of the first
    node in pre-order that breaks one. -/
theorem validate_eq_first_violation (p : Pattern) :
    (p.validate = .ok ()
        ↔ ∀ around node, (around, node) ∈ p.lineages [] → ∀ v, ¬ p.Breaks around node v)
      ∧ ∀ v, p.validate = .error v ↔ ∃ before around node behind,
        p.lineages [] = before ++ (around, node) :: behind ∧ p.Breaks around node v
          ∧ ∀ around' node', (around', node') ∈ before → ∀ w, ¬ p.Breaks around' node' w := by
  constructor
  · rw [validate_eq_verdict, verdict_eq_ok_iff]
    simp only [violation?_eq_none_iff, Prod.forall]
  · intro v
    rw [validate_eq_verdict, verdict_eq_error_iff]
    simp only [violation?_eq_none_iff, violation?_eq_some_iff, Prod.forall, Prod.exists]

/-- The capture is inside of a lookahead, but the link before it is undeclared. -/
example : validate (concat (link 2) (lookahead (star (capture (link 1) 1))))
    = .error (.undeclaredGroup 2) := rfl

end PatternGrammar.Pattern
