import Mathlib.Data.List.Induction
import Mathlib.Data.List.Nodup
import Mathlib.Data.List.Perm.Subperm
import PatternGrammar.Pattern.Validity
import PatternGrammar.Proofs.Placement

set_option autoImplicit false

/-! # Which patterns have a grammar

A pattern is refused for an index that two captures share, or else for a link without a capture.
An index is recorded when the body of its group is complete, so the captures are compared in
post-order, and this is over before the first link is missed, for the links that waited are only
resolved behind the walk. `Pattern.grammar_outcome` says which error wins in every case. -/

namespace PatternGrammar.Pattern

/-! ## The order in which groups are completed -/

/-- Every node of a pattern: the parts left to right before the node itself. -/
def postorder : Pattern → List Pattern
  | symbol c => [symbol c]
  | star body => body.postorder ++ [star body]
  | capture body index => body.postorder ++ [capture body index]
  | group body => body.postorder ++ [group body]
  | concat left right => left.postorder ++ right.postorder ++ [concat left right]
  | alt left right => left.postorder ++ right.postorder ++ [alt left right]
  | link index => [link index]
  | lookahead body => body.postorder ++ [lookahead body]

theorem postorder_perm_nodes (p : Pattern) : p.postorder.Perm p.nodes := by
  induction p with
  | symbol c | link index => exact List.Perm.refl _
  | star body ih | capture body index ih | group body ih | lookahead body ih =>
      exact (List.perm_append_singleton _ _).trans (ih.cons _)
  | concat left right ihl ihr | alt left right ihl ihr =>
      exact (List.perm_append_singleton _ _).trans ((ihl.append ihr).cons _)

/-- The indices of all captures in the order in which their groups are completed. -/
def completed (p : Pattern) : List Nat :=
  p.postorder.filterMap captureIndex?

theorem completed_perm_captures (p : Pattern) : p.completed.Perm p.captures :=
  p.postorder_perm_nodes.filterMap captureIndex?

theorem map_fst_completions (number : Nat) (p : Pattern) :
    (p.completions number).map Prod.fst = p.completed := by
  unfold completed
  induction p generalizing number with
  | symbol c | link index => rfl
  | star body ih | group body ih | lookahead body ih =>
      rw [completions, ih, postorder, List.filterMap_append]
      exact (List.append_nil _).symm
  | capture body index ih =>
      rw [completions, List.map_append, ih, postorder, List.filterMap_append]
      rfl
  | concat left right ihl ihr | alt left right ihl ihr =>
      rw [completions, List.map_append, ihl, ihr, postorder, List.filterMap_append,
        List.filterMap_append]
      exact (List.append_nil _).symm

theorem map_fst_groupTable (p : Pattern) : p.groupTable.map Prod.fst = p.completed.reverse := by
  rw [groupTable, List.map_reverse, map_fst_completions]

/-- Whether indices are repeated does not depend on the order of the captures. -/
theorem groupTable_nodup_iff {p : Pattern} :
    (p.groupTable.map Prod.fst).Nodup ↔ p.captures.Nodup := by
  rw [map_fst_groupTable, List.nodup_reverse, p.completed_perm_captures.nodup_iff]

theorem lookup_groupTable_eq_none_iff {p : Pattern} {index : Nat} :
    p.groupTable.lookup index = none ↔ index ∉ p.captures := by
  rw [lookup_eq_none_iff_not_mem, map_fst_groupTable, List.mem_reverse,
    p.completed_perm_captures.mem_iff]

theorem exists_lookup_groupTable_iff {p : Pattern} {index : Nat} :
    (∃ body, p.groupTable.lookup index = some body) ↔ index ∈ p.captures := by
  rw [← Option.isSome_iff_exists, ← Option.ne_none_iff_isSome, Ne,
    lookup_groupTable_eq_none_iff, not_not]

/-! ## Shared indices -/

/-- The first repetition in a list. -/
theorem exists_first_repetition {α : Type} {l : List α} (h : ¬ l.Nodup) :
    ∃ before x behind, l = before ++ x :: behind ∧ before.Nodup ∧ x ∈ before := by
  induction l using List.reverseRecOn with
  | nil => exact absurd List.nodup_nil h
  | append_singleton l x ih =>
      by_cases hl : l.Nodup
      · -- Nothing is repeated before the last element, so it is this one.
        refine ⟨l, x, [], rfl, hl, ?_⟩
        by_contra hx
        exact h (hl.append (List.nodup_singleton x) (List.disjoint_singleton.2 hx))
      · obtain ⟨before, y, behind, rfl, hbefore, hy⟩ := ih hl
        exact ⟨before, y, behind ++ [x], by simp, hbefore, hy⟩

theorem checkDistinct_of_repetition {entries : List (Nat × NonTerminal)} {before behind : List Nat}
    {index : Nat} (hentries : entries.map Prod.fst = before ++ index :: behind)
    (hbefore : before.Nodup) (hindex : index ∈ before) :
    Grammar.Builder.checkDistinct [] entries = .error (.duplicateCapture index) := by
  obtain ⟨first, second, rfl, rfl, hsecond⟩ := List.map_eq_append_iff.1 hentries
  obtain ⟨entry, rest, rfl, rfl, -⟩ := List.map_eq_cons_iff.1 hsecond
  have hfirst : Grammar.Builder.checkDistinct [] first = .ok () :=
    Grammar.Builder.checkDistinct_eq_ok_iff.2 ⟨hbefore, fun _ _ => rfl⟩
  have htaken : (first.reverse ++ []).lookup entry.1 ≠ none := by
    rw [Ne, lookup_eq_none_iff_not_mem, not_not, List.append_nil, List.map_reverse,
      List.mem_reverse]
    exact hindex
  rw [Grammar.Builder.checkDistinct_append, hfirst]
  show Grammar.Builder.checkDistinct (first.reverse ++ []) (entry :: rest) = _
  rw [Grammar.Builder.checkDistinct]
  cases hlookup : (first.reverse ++ []).lookup entry.1 with
  | none => exact absurd hlookup htaken
  | some body => rfl

/-- In post-order, the first capture with the index of another one before it has this `index`. -/
def IsFirstShared (p : Pattern) (index : Nat) : Prop :=
  ∃ before body behind, p.postorder = before ++ capture body index :: behind
    ∧ (before.filterMap captureIndex?).Nodup ∧ index ∈ before.filterMap captureIndex?

theorem exists_isFirstShared {p : Pattern} (h : ¬ p.captures.Nodup) :
    ∃ index, p.IsFirstShared index := by
  rw [← p.completed_perm_captures.nodup_iff] at h
  obtain ⟨indices, index, _, hsplit, hindices, hindex⟩ := exists_first_repetition h
  obtain ⟨first, second, hpost, rfl, hsecond⟩ := List.filterMap_eq_append_iff.1 hsplit
  -- Between the captures stand nodes of other kinds.
  obtain ⟨between, node, behind, rfl, hbetween, hnode, -⟩ := List.filterMap_eq_cons_iff.1 hsecond
  obtain ⟨body, rfl⟩ := captureIndex?_eq_some_iff.1 hnode
  have hbefore : (first ++ between).filterMap captureIndex? = first.filterMap captureIndex? := by
    rw [List.filterMap_append, List.filterMap_eq_nil_iff.2 hbetween, List.append_nil]
  refine ⟨index, first ++ between, body, behind, ?_, ?_, ?_⟩
  · rw [hpost, List.append_assoc]
  · rw [hbefore]
    exact hindices
  · rw [hbefore]
    exact hindex

theorem grammar_of_isFirstShared {p : Pattern} {index : Nat} (h : p.IsFirstShared index) :
    p.grammar = .error (.duplicateCapture index) := by
  obtain ⟨before, body, behind, hpost, hbefore, hindex⟩ := h
  have hcompletions : (p.completions 1).map Prod.fst
      = before.filterMap captureIndex? ++ index :: behind.filterMap captureIndex? := by
    rw [map_fst_completions, completed, hpost, List.filterMap_append]
    rfl
  rw [grammar_eq, checkDistinct_of_repetition hcompletions hbefore hindex]
  rfl

/-! ## The number of groups -/

theorem nodup_toList_groups (p : Pattern) : p.groups.toList.Nodup := by
  refine Std.TreeSet.distinct_toList.imp ?_
  rintro a b hab rfl
  exact hab Std.ReflCmp.compare_self

theorem toList_groups_subperm (p : Pattern) : p.groups.toList.Subperm p.captures := by
  refine List.subperm_of_subset p.nodup_toList_groups ?_
  intro index hindex
  rw [Std.TreeSet.mem_toList, groups, Std.TreeSet.mem_ofList, List.contains_iff_mem] at hindex
  exact hindex

theorem size_groups_of_distinct {p : Pattern} (h : p.captures.Nodup) :
    p.groups.size = p.captureCount := by
  refine Std.TreeSet.size_ofList (h.imp ?_)
  intro a b hab heq
  exact hab (Std.LawfulEqCmp.eq_of_compare heq)

/-- The number of groups falls short of the number of captures exactly if an index is shared. -/
theorem size_groups_lt_iff {p : Pattern} :
    p.groups.size < p.captureCount ↔ ¬ p.captures.Nodup := by
  constructor
  · intro hlt hdistinct
    rw [size_groups_of_distinct hdistinct] at hlt
    exact Nat.lt_irrefl _ hlt
  · intro hshared
    refine Nat.lt_of_not_le fun hle => hshared ?_
    -- As many groups as captures are the captures, in another order.
    rw [← Std.TreeSet.length_toList] at hle
    exact (p.toList_groups_subperm.perm_of_length_le hle).nodup_iff.1 p.nodup_toList_groups

/-! ## Links without a capture -/

/-- The grammar of a pattern whose captures have different indices. -/
theorem grammar_of_distinct {p : Pattern} (h : p.captures.Nodup) :
    p.grammar = (Grammar.Builder.checkLinks p.groupTable p.links >>= fun _ =>
      pure ⟨(p.placement p.groupTable 1).toArray⟩) := by
  rw [grammar_eq, groupTable_distinct_iff.1 (groupTable_nodup_iff.2 h)]
  rfl

theorem grammar_of_present {p : Pattern} (h : p.captures.Nodup)
    (hlinks : ∀ index ∈ p.links, index ∈ p.captures) : ∃ g, p.grammar = .ok g := by
  refine ⟨_, grammar_eq_ok_iff.2 ⟨groupTable_nodup_iff.2 h, ?_, rfl⟩⟩
  intro index hindex
  exact exists_lookup_groupTable_iff.2 (hlinks index hindex)

/-- From left to right, the first link with an index that no capture has is a link to `index`. -/
def IsFirstMissing (p : Pattern) (index : Nat) : Prop :=
  ∃ before behind, p.links = before ++ index :: behind
    ∧ (∀ earlier ∈ before, earlier ∈ p.captures) ∧ index ∉ p.captures

theorem exists_isFirstMissing {p : Pattern} (h : ∃ index ∈ p.links, index ∉ p.captures) :
    ∃ index, p.IsFirstMissing index := by
  obtain ⟨other, hother, hmissing⟩ := h
  have hsome : (p.links.find? (· ∉ p.captures)).isSome := by
    rw [List.find?_isSome]
    exact ⟨other, hother, decide_eq_true hmissing⟩
  obtain ⟨index, hfind⟩ := Option.isSome_iff_exists.1 hsome
  obtain ⟨hindex, before, behind, hlinks, hbefore⟩ := List.find?_eq_some_iff_append.1 hfind
  refine ⟨index, before, behind, hlinks, ?_, of_decide_eq_true hindex⟩
  intro earlier hearlier
  simpa using hbefore earlier hearlier

theorem grammar_of_isFirstMissing {p : Pattern} (h : p.captures.Nodup) {index : Nat}
    (hmissing : p.IsFirstMissing index) : p.grammar = .error (.unresolvedLink index) := by
  obtain ⟨before, behind, hlinks, hbefore, hindex⟩ := hmissing
  have hfirst : Grammar.Builder.checkLinks p.groupTable before = .ok () :=
    Grammar.Builder.checkLinks_eq_ok_iff.2 fun earlier hmem =>
      exists_lookup_groupTable_iff.2 (hbefore earlier hmem)
  rw [grammar_of_distinct h, hlinks, Grammar.Builder.checkLinks_append, hfirst]
  show Grammar.Builder.checkLinks p.groupTable (index :: behind) >>= _ = _
  rw [Grammar.Builder.checkLinks, lookup_groupTable_eq_none_iff.2 hindex]
  rfl

/-- A pattern whose captures have different indices is refused only for a missing capture. -/
theorem grammar_eq_error_iff {p : Pattern} (h : p.captures.Nodup) {e : BuildError} :
    p.grammar = .error e ↔ ∃ index, p.IsFirstMissing index ∧ e = .unresolvedLink index := by
  constructor
  · intro herror
    by_cases hlinks : ∀ index ∈ p.links, index ∈ p.captures
    · obtain ⟨g, hok⟩ := grammar_of_present h hlinks
      exact nomatch hok.symm.trans herror
    · simp only [not_forall] at hlinks
      obtain ⟨other, hother, hnot⟩ := hlinks
      obtain ⟨index, hindex⟩ := exists_isFirstMissing ⟨other, hother, hnot⟩
      refine ⟨index, hindex, ?_⟩
      exact Except.error.inj (herror.symm.trans (grammar_of_isFirstMissing h hindex))
  · rintro ⟨index, hindex, rfl⟩
    exact grammar_of_isFirstMissing h hindex

/-- What becomes of any pattern. If captures share an index, which shows in the number of groups,
    then the first capture in post-order whose index is taken is refused, whatever the links are.
    Otherwise the first link from left to right is refused whose index no capture has. Every other
    pattern has a grammar. -/
theorem grammar_outcome (p : Pattern) :
    (¬ p.captures.Nodup ↔ p.groups.size < p.captureCount)
      ∧ (¬ p.captures.Nodup →
        ∃ index, p.IsFirstShared index ∧ p.grammar = .error (.duplicateCapture index))
      ∧ (p.captures.Nodup → (∃ index ∈ p.links, index ∉ p.captures) →
        ∃ index, p.IsFirstMissing index ∧ p.grammar = .error (.unresolvedLink index))
      ∧ (p.captures.Nodup → (∀ index ∈ p.links, index ∈ p.captures) →
        ∃ g, p.grammar = .ok g) := by
  refine ⟨size_groups_lt_iff.symm, ?_, ?_, grammar_of_present⟩
  · intro hshared
    obtain ⟨index, hindex⟩ := exists_isFirstShared hshared
    exact ⟨index, hindex, grammar_of_isFirstShared hindex⟩
  · intro hdistinct hmissing
    obtain ⟨index, hindex⟩ := exists_isFirstMissing hmissing
    exact ⟨index, hindex, grammar_of_isFirstMissing hdistinct hindex⟩

/-- The indices `1` and `2` are shared, and the link has no capture. In pre-order the repetition of
    `1` would come first. -/
example : grammar (concat (link 3) (capture (concat (capture (symbol 'a') 1)
      (concat (capture (symbol 'b') 2) (capture (symbol 'c') 2))) 1))
    = .error (.duplicateCapture 2) := rfl

end PatternGrammar.Pattern
