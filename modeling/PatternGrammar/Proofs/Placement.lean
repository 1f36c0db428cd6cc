import PatternGrammar.Proofs.Walk

set_option autoImplicit false

/-! # The rule of every node

The grammar of a pattern, read without the walk that builds it: the rule at each place is the one
that the node at this place dictates (`get?_grammar`). For a link this is the rule of the body of
the only capture with its index, wherever that capture stands. -/

namespace PatternGrammar

open Grammar (Alternative)

/-! ## Tables of groups -/

section Tables

variable {groups : List (Nat × NonTerminal)}

theorem lookup_eq_none_iff_not_mem {index : Nat} :
    groups.lookup index = none ↔ index ∉ groups.map Prod.fst := by
  rw [List.lookup_eq_none_iff, List.mem_map]
  constructor
  · rintro h ⟨entry, hentry, rfl⟩
    simpa using h entry hentry
  · intro h entry hentry
    rw [bne_iff_ne]
    rintro rfl
    exact h ⟨entry, hentry, rfl⟩

/-- In a table without repeated indices the order of the entries does not matter. -/
theorem lookup_eq_some_iff_mem (hdistinct : (groups.map Prod.fst).Nodup) {index : Nat}
    {body : NonTerminal} : groups.lookup index = some body ↔ (index, body) ∈ groups := by
  induction groups with
  | nil => simp
  | cons entry rest ih =>
      obtain ⟨first, rule⟩ := entry
      rw [List.map_cons, List.nodup_cons] at hdistinct
      obtain ⟨hnot, hrest⟩ := hdistinct
      rw [List.lookup_cons, List.mem_cons, Prod.mk.injEq]
      by_cases heq : index = first
      · subst heq
        have hnone : (index, body) ∉ rest := fun hmem => hnot (List.mem_map.2 ⟨_, hmem, rfl⟩)
        simp [hnone, eq_comm]
      · rw [beq_eq_false_iff_ne.2 heq, ih hrest]
        simp [heq]

/-- A group that is complete at some moment of a walk stays the same to its end. -/
theorem lookup_of_suffix {known : List (Nat × NonTerminal)} (hknown : known <:+ groups)
    (hdistinct : (groups.map Prod.fst).Nodup) {index : Nat} {body : NonTerminal}
    (h : known.lookup index = some body) : groups.lookup index = some body := by
  have hsub : (known.map Prod.fst).Nodup :=
    hdistinct.sublist (hknown.sublist.map Prod.fst)
  rw [lookup_eq_some_iff_mem hdistinct]
  exact hknown.subset ((lookup_eq_some_iff_mem hsub).1 h)

end Tables

/-! ## The links that waited -/

namespace Pattern

/-- The indices of all links, from left to right and as often as they occur. -/
def links : Pattern → List Nat
  | symbol _ => []
  | star body | capture body _ | group body | lookahead body => body.links
  | concat left right | alt left right => left.links ++ right.links
  | link index => [index]

/-- The rules of all nodes, in pre-order, where `number` is the number of the first one and
    `groups` are all groups. -/
def placement (groups : List (Nat × NonTerminal)) (number : Nat) (p : Pattern) :
    List (List Alternative) :=
  p.rule groups number ::
    match p with
    | symbol _ | link _ => []
    | star body | capture body _ | group body | lookahead body =>
        body.placement groups (number + 1)
    | concat left right | alt left right =>
        left.placement groups (number + 1) ++ right.placement groups (number + 1 + left.size)

theorem length_placement (groups : List (Nat × NonTerminal)) (number : Nat) (p : Pattern) :
    (p.placement groups number).length = p.size := by
  induction p generalizing number with
  | symbol c | link index => rfl
  | star body ih | capture body index ih | group body ih | lookahead body ih =>
      simp only [placement, size, List.length_cons, ih, Nat.add_comm]
  | concat left right ihl ihr | alt left right ihl ihr =>
      simp only [placement, size, List.length_cons, List.length_append, ihl, ihr]
      omega

/-- The rule at a place is the one of the node at this place. -/
theorem getElem?_placement (groups : List (Nat × NonTerminal)) (number : Nat) (p : Pattern)
    (k : Nat) : (p.placement groups number)[k]?
      = p.nodes[k]?.map fun node => node.rule groups (number + k) := by
  induction p generalizing number k with
  | symbol c | link index => cases k <;> rfl
  | star body ih | capture body index ih | group body ih | lookahead body ih =>
      cases k with
      | zero => rfl
      | succ k =>
          simp only [placement, nodes, List.getElem?_cons_succ, ih]
          rw [Nat.add_assoc, Nat.add_comm 1]
  | concat left right ihl ihr | alt left right ihl ihr =>
      cases k with
      | zero => rfl
      | succ k =>
          simp only [placement, nodes, List.getElem?_cons_succ, List.getElem?_append,
            length_placement, length_nodes, ihl, ihr]
          split
          · rw [Nat.add_assoc, Nat.add_comm 1]
          · rw [show number + 1 + left.size + (k - left.size) = number + (k + 1) by omega]

end Pattern

namespace Grammar.Builder

theorem push_append_toArray {α : Type} (before : Array α) (x : α) (behind : List α) :
    before.push x ++ behind.toArray = before ++ (x :: behind).toArray := by
  simp

theorem append_append_toArray {α : Type} (before : Array α) (first second : List α) :
    before ++ (first ++ second).toArray = before ++ first.toArray ++ second.toArray := by
  simp

/-- Refuses the first of `links` for which there is no group. -/
def checkLinks (groups : List (Nat × NonTerminal)) : List Nat → Except BuildError Unit
  | [] => .ok ()
  | index :: rest =>
      match groups.lookup index with
      | some _ => checkLinks groups rest
      | none => .error (.unresolvedLink index)

theorem checkLinks_append (groups : List (Nat × NonTerminal)) (first second : List Nat) :
    checkLinks groups (first ++ second)
      = (checkLinks groups first >>= fun _ => checkLinks groups second) := by
  induction first with
  | nil => rfl
  | cons index rest ih =>
      simp only [List.cons_append, checkLinks]
      split
      · exact ih
      · rfl

theorem checkLinks_eq_ok_iff {groups : List (Nat × NonTerminal)} {links : List Nat} :
    checkLinks groups links = .ok ()
      ↔ ∀ index ∈ links, ∃ body, groups.lookup index = some body := by
  induction links with
  | nil => simp [checkLinks]
  | cons index rest ih =>
      rw [checkLinks, List.forall_mem_cons]
      cases groups.lookup index with
      | none => simp
      | some body => simp [ih]

/-- Resolving the waiting links of a pattern fills in its rules and leaves all others alone. -/
theorem foldlM_resolve_waiting (b : Builder) (hdistinct : (b.groups.map Prod.fst).Nodup)
    (p : Pattern) (known : List (Nat × NonTerminal)) (number : Nat)
    (before : Array (List Alternative)) (behind : List (List Alternative))
    (hnumber : before.size + 1 = number)
    (hknown : (p.completions number).reverse ++ known <:+ b.groups) :
    (p.waiting known number).foldlM b.resolve
        ⟨before ++ (p.draft known number ++ behind).toArray⟩
      = (checkLinks b.groups p.links >>= fun _ => pure
          ⟨before ++ (p.placement b.groups number ++ behind).toArray⟩) := by
  induction p generalizing known number before behind with
  | symbol c => rfl
  | link index =>
      simp only [Pattern.waiting, Pattern.draft, Pattern.placement, Pattern.rule, Pattern.links,
        checkLinks]
      cases hlookup : known.lookup index with
      | some body =>
          -- The link did not wait, and what it was resolved with is what it would be now.
          rw [lookup_of_suffix hknown hdistinct hlookup]
          rfl
      | none =>
          simp only [List.foldlM_cons, List.foldlM_nil, resolve]
          cases b.groups.lookup index with
          | none => rfl
          | some body =>
              simp only [List.cons_append, List.nil_append, ← hnumber, Grammar.define_append]
              rfl
  | star body ih | group body ih | lookahead body ih =>
      simp only [Pattern.draft, List.cons_append, ← push_append_toArray]
      rw [Pattern.waiting, ih known (number + 1) _ behind (by simp [hnumber]) hknown]
      simp only [push_append_toArray]
      rfl
  | capture body index ih =>
      have hbody : (body.completions (number + 1)).reverse ++ known <:+ b.groups := by
        rw [Pattern.completions, List.reverse_append] at hknown
        exact (List.suffix_cons _ _).trans hknown
      simp only [Pattern.draft, List.cons_append, ← push_append_toArray]
      rw [Pattern.waiting, ih known (number + 1) _ behind (by simp [hnumber]) hbody]
      simp only [push_append_toArray]
      rfl
  | concat left right ihl ihr | alt left right ihl ihr =>
      rw [Pattern.completions, List.reverse_append, List.append_assoc] at hknown
      have hleft := (List.suffix_append _ _).trans hknown
      -- The rule of the node goes to what stands before, and so do the ones of the left part.
      simp only [Pattern.draft, List.cons_append, List.append_assoc, ← push_append_toArray]
      rw [Pattern.waiting, List.foldlM_append,
        ihl known (number + 1) _ _ (by simp [hnumber]) hleft]
      simp only [bind_assoc, pure_bind]
      rw [append_append_toArray, ihr _ (number + 1 + left.size) _ behind
        (by simp [Pattern.length_placement]; omega) hknown]
      rw [Pattern.links, checkLinks_append, bind_assoc]
      simp only [Pattern.placement, ← append_append_toArray, push_append_toArray,
        List.cons_append, List.append_assoc]
      rfl

/-- Nothing is refused if the entries have different indices that are not in the table. -/
theorem checkDistinct_eq_ok_iff {groups entries : List (Nat × NonTerminal)} :
    checkDistinct groups entries = .ok () ↔ (entries.map Prod.fst).Nodup
      ∧ ∀ index ∈ entries.map Prod.fst, groups.lookup index = none := by
  induction entries generalizing groups with
  | nil => simp [checkDistinct]
  | cons entry rest ih =>
      rw [checkDistinct, List.map_cons, List.nodup_cons, List.forall_mem_cons]
      cases hlookup : groups.lookup entry.1 with
      | some body => simp
      | none =>
          have hcons (index : Nat) : (entry :: groups).lookup index = none
              ↔ index ≠ entry.1 ∧ groups.lookup index = none := by
            rw [lookup_eq_none_iff_not_mem, lookup_eq_none_iff_not_mem, List.map_cons,
              List.mem_cons, not_or]
          simp only [ih, hcons, true_and]
          constructor
          · rintro ⟨hdistinct, hrest⟩
            exact ⟨⟨fun hmem => (hrest _ hmem).1 rfl, hdistinct⟩, fun _ hmem => (hrest _ hmem).2⟩
          · rintro ⟨⟨hentry, hdistinct⟩, hrest⟩
            exact ⟨hdistinct, fun _ hmem => ⟨ne_of_mem_of_not_mem hmem hentry, hrest _ hmem⟩⟩

end Grammar.Builder

namespace Pattern

/-- The table of all groups of a pattern, with the rules of their bodies. -/
def groupTable (p : Pattern) : List (Nat × NonTerminal) :=
  (p.completions 1).reverse

theorem groupTable_distinct_iff {p : Pattern} :
    (p.groupTable.map Prod.fst).Nodup
      ↔ Grammar.Builder.checkDistinct [] (p.completions 1) = .ok () := by
  rw [Grammar.Builder.checkDistinct_eq_ok_iff, groupTable, List.map_reverse,
    (List.reverse_perm _).nodup_iff]
  exact (and_iff_left fun _ _ => rfl).symm

theorem walked_empty (p : Pattern) : Grammar.Builder.empty.walked p
    = ⟨⟨(p.draft [] 1).toArray⟩, p.groupTable, p.waiting [] 1⟩ := by
  have hnumber : Grammar.Builder.empty.nextNumber = 1 := rfl
  rw [Grammar.Builder.walked, hnumber]
  simp [Grammar.Builder.empty, Grammar.empty, groupTable]

/-- The grammar of a pattern in closed form: two checks, and then the rule of every node. -/
theorem grammar_eq (p : Pattern) :
    p.grammar = (Grammar.Builder.checkDistinct [] (p.completions 1) >>= fun _ =>
      Grammar.Builder.checkLinks p.groupTable p.links >>= fun _ =>
        pure ⟨(p.placement p.groupTable 1).toArray⟩) := by
  have hadd : Grammar.Builder.empty.add p
      = (Grammar.Builder.checkDistinct [] (p.completions 1) >>= fun _ =>
          pure (⟨1⟩, Grammar.Builder.empty.walked p)) := Grammar.Builder.add_eq _ p
  rw [Pattern.grammar, hadd, bind_assoc, walked_empty]
  cases hcheck : Grammar.Builder.checkDistinct [] (p.completions 1) with
  | error e => rfl
  | ok _ =>
      have hdistinct := groupTable_distinct_iff.2 hcheck
      have hfinish := Grammar.Builder.foldlM_resolve_waiting
        ⟨⟨(p.draft [] 1).toArray⟩, p.groupTable, p.waiting [] 1⟩ hdistinct p [] 1 #[] [] rfl
        (by rw [List.append_nil]; exact List.suffix_refl _)
      simp only [List.append_nil, Array.empty_append] at hfinish
      exact hfinish

/-- A pattern has a grammar exactly if its captures have different indices and each of its links has
    a target, and the grammar then is the placement of the rules of its nodes. -/
theorem grammar_eq_ok_iff {p : Pattern} {g : Grammar} :
    p.grammar = .ok g ↔ (p.groupTable.map Prod.fst).Nodup
      ∧ (∀ index ∈ p.links, ∃ body, p.groupTable.lookup index = some body)
      ∧ g = ⟨(p.placement p.groupTable 1).toArray⟩ := by
  rw [grammar_eq, groupTable_distinct_iff, ← Grammar.Builder.checkLinks_eq_ok_iff]
  cases Grammar.Builder.checkDistinct [] (p.completions 1) with
  | error e => simp [bind, Except.bind]
  | ok _ =>
      cases Grammar.Builder.checkLinks p.groupTable p.links with
      | error e => simp [bind, Except.bind]
      | ok _ => simp [bind, Except.bind, pure, Except.pure, eq_comm]

/-! ## Where the captures are -/

/-- The captures of a pattern in pre-order, each with the rule of its body, where `number` is the
    number of the rule of the pattern itself. -/
def captureSites (number : Nat) (p : Pattern) : List (Nat × NonTerminal) :=
  (p.nodes.zipIdx number).filterMap fun (node, k) => node.captureIndex?.map fun index =>
    (index, ⟨k + 1⟩)

/-- A walk completes the captures in another order than they are listed in, but the same ones. -/
theorem completions_perm_captureSites (number : Nat) (p : Pattern) :
    (p.completions number).Perm (p.captureSites number) := by
  induction p generalizing number with
  | symbol c | link index => exact List.Perm.refl _
  | star body ih | group body ih | lookahead body ih => exact ih (number + 1)
  | capture body index ih =>
      exact (List.perm_append_singleton _ _).trans ((ih (number + 1)).cons _)
  | concat left right ihl ihr | alt left right ihl ihr =>
      have h := (ihl (number + 1)).append (ihr (number + 1 + left.size))
      rw [captureSites, nodes, List.zipIdx_cons, List.filterMap_cons_none rfl, List.zipIdx_append,
        List.filterMap_append, length_nodes]
      exact h

theorem captureIndex?_eq_some_iff {node : Pattern} {index : Nat} :
    node.captureIndex? = some index ↔ ∃ body, node = capture body index := by
  cases node <;> simp [captureIndex?, eq_comm]

/-- The groups that a walk completes are the captures, each with the rule of its body. -/
theorem mem_completions_iff {p : Pattern} {number index : Nat} {rule : NonTerminal} :
    (index, rule) ∈ p.completions number
      ↔ ∃ k body, p.nodes[k]? = some (capture body index) ∧ rule = ⟨number + k + 1⟩ := by
  rw [(completions_perm_captureSites number p).mem_iff, captureSites, List.mem_filterMap]
  constructor
  · rintro ⟨⟨node, place⟩, hmem, hnode⟩
    obtain ⟨hle, hget⟩ := List.mk_mem_zipIdx_iff_le_and_getElem?_sub.1 hmem
    obtain ⟨k, rfl⟩ := Nat.exists_eq_add_of_le hle
    simp only [Option.map_eq_some_iff, Prod.mk.injEq] at hnode
    obtain ⟨index', hindex, rfl, rfl⟩ := hnode
    obtain ⟨body, rfl⟩ := captureIndex?_eq_some_iff.1 hindex
    rw [Nat.add_sub_cancel_left] at hget
    exact ⟨k, body, hget, rfl⟩
  · rintro ⟨k, body, hnode, rfl⟩
    refine ⟨(capture body index, number + k), ?_, rfl⟩
    rw [List.mk_mem_zipIdx_iff_le_and_getElem?_sub, Nat.add_sub_cancel_left]
    exact ⟨Nat.le_add_right .., hnode⟩

theorem mem_groupTable_iff {p : Pattern} {index : Nat} {rule : NonTerminal} :
    (index, rule) ∈ p.groupTable
      ↔ ∃ k body, p.nodeAt? k = some (capture body index) ∧ rule = ⟨k + 1⟩ := by
  rw [groupTable, List.mem_reverse, mem_completions_iff]
  constructor
  · rintro ⟨k, body, hnode, rfl⟩
    exact ⟨k + 1, body, hnode, by rw [Nat.add_comm 1]⟩
  · rintro ⟨_ | k, body, hnode, rfl⟩
    · exact nomatch hnode
    · exact ⟨k, body, hnode, by rw [Nat.add_comm 1]⟩

theorem mem_links_iff {p : Pattern} {index : Nat} : index ∈ p.links ↔ link index ∈ p.nodes := by
  induction p with
  | symbol c => simp [links, nodes]
  | link other => simp [links, nodes]
  | star body ih | capture body other ih | group body ih | lookahead body ih =>
      simp [links, nodes, ih]
  | concat left right ihl ihr | alt left right ihl ihr =>
      simp [links, nodes, ihl, ihr]

/-! ## The rule that a node dictates -/

/-- The only capture of `p` with the given index is the node at place `j`. -/
def IsOnlyCapture (p : Pattern) (index j : Nat) : Prop :=
  ∀ k, (∃ body, p.nodeAt? k = some (capture body index)) ↔ k = j

/-- The rule of a node that stands at place `k` of the listing of `p`. -/
inductive Dictates (p : Pattern) (k : Nat) : Pattern → List Alternative → Prop where
  | symbol (c : Char) : Dictates p k (symbol c) [[.terminal c]]
  | star (body : Pattern) :
      Dictates p k (star body) [[.nonTerminal ⟨k + 1⟩, .nonTerminal ⟨k⟩], [.epsilon]]
  | capture (body : Pattern) (index : Nat) :
      Dictates p k (capture body index) [[.nonTerminal ⟨k + 1⟩]]
  | group (body : Pattern) : Dictates p k (group body) [[.nonTerminal ⟨k + 1⟩]]
  | lookahead (body : Pattern) : Dictates p k (lookahead body) [[.nonTerminal ⟨k + 1⟩]]
  | concat (left right : Pattern) :
      Dictates p k (concat left right)
        [[.nonTerminal ⟨k + 1⟩, .nonTerminal ⟨k + 1 + left.size⟩]]
  | alt (left right : Pattern) :
      Dictates p k (alt left right)
        [[.nonTerminal ⟨k + 1⟩], [.nonTerminal ⟨k + 1 + left.size⟩]]
  | link (index j : Nat) (target : p.IsOnlyCapture index j) :
      Dictates p k (link index) [[.nonTerminal ⟨j + 1⟩]]

theorem isOnlyCapture_of_lookup {p : Pattern} (hdistinct : (p.groupTable.map Prod.fst).Nodup)
    {index : Nat} {rule : NonTerminal} (hlookup : p.groupTable.lookup index = some rule) :
    ∃ j, rule = ⟨j + 1⟩ ∧ p.IsOnlyCapture index j := by
  have hmem := (lookup_eq_some_iff_mem hdistinct).1 hlookup
  obtain ⟨j, body, hj, rfl⟩ := mem_groupTable_iff.1 hmem
  refine ⟨j, rfl, ?_⟩
  intro k
  constructor
  · rintro ⟨body', hk⟩
    have hother := (lookup_eq_some_iff_mem hdistinct).2 (mem_groupTable_iff.2 ⟨k, body', hk, rfl⟩)
    rw [hlookup, Option.some.injEq, NonTerminal.mk.injEq] at hother
    omega
  · rintro rfl
    exact ⟨body, hj⟩

theorem dictates_rule {p node : Pattern} {k : Nat}
    (hdistinct : (p.groupTable.map Prod.fst).Nodup)
    (hlinks : ∀ index ∈ p.links, ∃ body, p.groupTable.lookup index = some body)
    (hnode : p.nodeAt? k = some node) : p.Dictates k node (node.rule p.groupTable k) := by
  cases node with
  | symbol c => exact .symbol c
  | star body => exact .star body
  | capture body index => exact .capture body index
  | group body => exact .group body
  | lookahead body => exact .lookahead body
  | concat left right => exact .concat left right
  | alt left right => exact .alt left right
  | link index =>
      obtain ⟨rule, hlookup⟩ := hlinks index (mem_links_iff.2 (mem_nodes_iff.2 ⟨k, hnode⟩))
      obtain ⟨j, rfl, honly⟩ := isOnlyCapture_of_lookup hdistinct hlookup
      rw [Pattern.rule, hlookup]
      exact .link index j honly

/-- Each node of a pattern that has a grammar dictates the rule at its place. -/
theorem get?_grammar {p node : Pattern} {g : Grammar} (h : p.grammar = .ok g) {k : Nat}
    (hnode : p.nodeAt? k = some node) :
    ∃ alternatives, g.get? ⟨k⟩ = some alternatives ∧ p.Dictates k node alternatives := by
  obtain ⟨hdistinct, hlinks, rfl⟩ := grammar_eq_ok_iff.1 h
  refine ⟨node.rule p.groupTable k, ?_, dictates_rule hdistinct hlinks hnode⟩
  cases k with
  | zero => simp [nodeAt?] at hnode
  | succ k =>
      rw [nodeAt?_succ] at hnode
      simp [Grammar.get?, getElem?_placement, hnode, Nat.add_comm]

theorem exists_nodeAt? {p : Pattern} {g : Grammar} (h : p.grammar = .ok g) {k : Nat}
    {alternatives : List Alternative} (hget : g.get? ⟨k⟩ = some alternatives) :
    ∃ node, p.nodeAt? k = some node := by
  obtain ⟨-, -, rfl⟩ := grammar_eq_ok_iff.1 h
  cases k with
  | zero => simp [Grammar.get?] at hget
  | succ k =>
      simp only [Grammar.get?, List.getElem?_toArray, getElem?_placement,
        Option.map_eq_some_iff] at hget
      obtain ⟨node, hnode, -⟩ := hget
      exact ⟨node, hnode⟩

/-- The grammar of a pattern has one rule for each node, in pre-order, and no other ones; and the
    rule at each place is the one that the node at this place dictates. -/
theorem grammar_eq_placement {p : Pattern} {g : Grammar} (h : p.grammar = .ok g) :
    g.size = p.size ∧ ∀ k node, p.nodeAt? k = some node →
      ∃ alternatives, g.get? ⟨k⟩ = some alternatives ∧ p.Dictates k node alternatives := by
  constructor
  · obtain ⟨-, -, rfl⟩ := grammar_eq_ok_iff.1 h
    rw [Grammar.size, List.size_toArray, length_placement]
  · intro k node hnode
    exact get?_grammar h hnode

/-- In `(?1)(a(?1))` one link stands before its group and the other one inside of it. -/
theorem grammar_eq_placement_around :
    ∃ g, (concat (link 1) (capture (concat (symbol 'a') (link 1)) 1)).grammar = .ok g
      ∧ g.size = 6 ∧ ∃ alternatives, g.get? ⟨6⟩ = some alternatives
        ∧ (concat (link 1) (capture (concat (symbol 'a') (link 1)) 1)).Dictates 6 (link 1)
          alternatives := by
  have hgrammar : (concat (link 1) (capture (concat (symbol 'a') (link 1)) 1)).grammar
      = .ok ⟨#[[[.nonTerminal ⟨2⟩, .nonTerminal ⟨3⟩]], [[.nonTerminal ⟨4⟩]],
        [[.nonTerminal ⟨4⟩]], [[.nonTerminal ⟨5⟩, .nonTerminal ⟨6⟩]], [[.terminal 'a']],
        [[.nonTerminal ⟨4⟩]]]⟩ := rfl
  obtain ⟨hsize, hrules⟩ := grammar_eq_placement hgrammar
  exact ⟨_, hgrammar, hsize, hrules 6 (link 1) rfl⟩

end Pattern

end PatternGrammar
