import PatternGrammar.Proofs.Refusals
import PatternGrammar.Proofs.Violations

set_option autoImplicit false

/-! # What a walk adds

A walk may begin in any state, with rules, groups and waiting links of which it knows nothing. It
leaves all of them as they are and adds to each what the nodes of the pattern ask for
(`add_effect`). Whether a link has to wait is told from places alone: it waits unless its group was
in the table before, or is a capture of the pattern that ends in front of the link. -/

namespace PatternGrammar

open Grammar (Alternative)

namespace Pattern

variable {p part left right : Pattern} {behind : List Pattern} {index k : Nat}
  {groups : List (Nat × NonTerminal)}

/-! ## Links that wait -/

/-- A capture with this index and all nodes of its body stand in front of place `k`, where the
    pattern itself stands at place `0`. -/
def CompletedBefore (p : Pattern) (index k : Nat) : Prop :=
  ∃ j body, p.nodes[j]? = some (capture body index) ∧ j + (capture body index).size ≤ k

/-- At place `k` stands a link with this index whose group is neither in the table nor complete. -/
def WaitsAt (p : Pattern) (groups : List (Nat × NonTerminal)) (index k : Nat) : Prop :=
  p.nodes[k]? = some (link index) ∧ groups.lookup index = none ∧ ¬ p.CompletedBefore index k

/-- All nodes of a node stand in the listing. -/
theorem add_size_le {node : Pattern} (h : p.nodes[k]? = some node) : k + node.size ≤ p.size := by
  have hlast : node.size - 1 < node.nodes.length := by
    rw [length_nodes]
    exact Nat.sub_one_lt_of_lt node.size_pos
  have hin := getElem?_nodes_add h (List.getElem?_eq_getElem hlast)
  have hlt := (List.getElem?_eq_some_iff.1 hin).1
  rw [length_nodes] at hlt
  have hpos := node.size_pos
  omega

theorem lt_size_of_getElem? {node : Pattern} (h : p.nodes[k]? = some node) : k < p.size :=
  p.length_nodes ▸ (List.getElem?_eq_some_iff.1 h).1

theorem size_of_nodes (hnodes : p.nodes = p :: (part.nodes ++ behind)) :
    p.size = part.size + behind.length + 1 := by
  rw [← length_nodes, hnodes, List.length_cons, List.length_append, length_nodes]

theorem getElem?_first (hnodes : p.nodes = p :: (part.nodes ++ behind)) (hk : k < part.size) :
    p.nodes[k + 1]? = part.nodes[k]? := by
  rw [hnodes, List.getElem?_cons_succ, List.getElem?_append_left (by rwa [length_nodes])]

theorem getElem?_second (hnodes : p.nodes = p :: (part.nodes ++ behind)) (k : Nat) :
    p.nodes[part.size + k + 1]? = behind[k]? := by
  rw [hnodes, List.getElem?_cons_succ, ← length_nodes part,
    List.getElem?_append_right (Nat.le_add_right ..), Nat.add_sub_cancel_left]

/-- What is complete in front of a node of the first part is complete in this part. -/
theorem completedBefore_first (hnodes : p.nodes = p :: (part.nodes ++ behind))
    (hk : k < part.size) :
    p.CompletedBefore index (k + 1) ↔ part.CompletedBefore index k := by
  have hsize := size_of_nodes hnodes
  constructor
  · rintro ⟨_ | j, body, hj, hle⟩
    · -- The node around all others is complete behind them.
      rw [getElem?_nodes_zero, Option.some.injEq] at hj
      rw [← hj] at hle
      omega
    · have hpos := (capture body index).size_pos
      rw [getElem?_first hnodes (by omega)] at hj
      exact ⟨j, body, hj, by omega⟩
  · rintro ⟨j, body, hj, hle⟩
    have hfirst := getElem?_first hnodes (lt_size_of_getElem? hj)
    exact ⟨j + 1, body, hfirst.trans hj, by omega⟩

/-- In front of a node of the second part all captures of the first part are complete. -/
theorem completedBefore_second (hnodes : p.nodes = p :: (left.nodes ++ right.nodes))
    (hk : k < right.size) :
    p.CompletedBefore index (left.size + k + 1)
      ↔ index ∈ left.captures ∨ right.CompletedBefore index k := by
  have hsize := size_of_nodes hnodes
  rw [length_nodes] at hsize
  constructor
  · rintro ⟨_ | j, body, hj, hle⟩
    · rw [getElem?_nodes_zero, Option.some.injEq] at hj
      rw [← hj] at hle
      omega
    · by_cases hleft : j < left.size
      · rw [getElem?_first hnodes hleft] at hj
        exact .inl (mem_captures_iff.2 ⟨body, List.mem_of_getElem? hj⟩)
      · obtain ⟨j, rfl⟩ := Nat.exists_eq_add_of_le (Nat.le_of_not_lt hleft)
        rw [getElem?_second hnodes] at hj
        exact .inr ⟨j, body, hj, by omega⟩
  · rintro (hleft | ⟨j, body, hj, hle⟩)
    · obtain ⟨body, hbody⟩ := mem_captures_iff.1 hleft
      obtain ⟨j, hj⟩ := List.mem_iff_getElem?.1 hbody
      have hfits := add_size_le hj
      have hfirst := getElem?_first hnodes (lt_size_of_getElem? hj)
      exact ⟨j + 1, body, hfirst.trans hj, by omega⟩
    · exact ⟨left.size + j + 1, body, (getElem?_second hnodes j).trans hj, by omega⟩

theorem lookup_completions_append_eq_none_iff (number : Nat) :
    ((left.completions number).reverse ++ groups).lookup index = none
      ↔ index ∉ left.captures ∧ groups.lookup index = none := by
  rw [List.lookup_append, Option.or_eq_none_iff, lookup_eq_none_iff_not_mem, List.map_reverse,
    List.mem_reverse, map_fst_completions, left.completed_perm_captures.mem_iff]

theorem waitsAt_first (hnodes : p.nodes = p :: (part.nodes ++ behind)) (hk : k < part.size) :
    p.WaitsAt groups index (k + 1) ↔ part.WaitsAt groups index k := by
  unfold WaitsAt
  rw [getElem?_first hnodes hk, completedBefore_first hnodes hk]

/-- A link of the second part knows the groups of the first part, which are complete before it. -/
theorem waitsAt_second (hnodes : p.nodes = p :: (left.nodes ++ right.nodes)) (hk : k < right.size)
    (number : Nat) :
    p.WaitsAt groups index (left.size + k + 1)
      ↔ right.WaitsAt ((left.completions number).reverse ++ groups) index k := by
  unfold WaitsAt
  rw [getElem?_second hnodes, completedBefore_second hnodes hk,
    lookup_completions_append_eq_none_iff, not_or]
  tauto

theorem WaitsAt.lt_size (h : p.WaitsAt groups index k) : k < p.size :=
  lt_size_of_getElem? h.1

/-- Nothing but a link waits at its own place. -/
theorem waitsAt_zero_iff :
    p.WaitsAt groups index 0 ↔ p = link index ∧ groups.lookup index = none := by
  have hincomplete : ¬ p.CompletedBefore index 0 := by
    rintro ⟨j, body, -, hle⟩
    have hpos := (capture body index).size_pos
    omega
  unfold WaitsAt
  rw [getElem?_nodes_zero, Option.some.injEq, and_iff_left hincomplete]

theorem waitsAt_symbol_iff {c : Char} : (symbol c).WaitsAt groups index k ↔ False := by
  refine iff_of_false ?_ not_false
  rintro ⟨hlink, -⟩
  exact nomatch List.mem_singleton.1 (List.mem_of_getElem? hlink)

theorem waitsAt_link_iff {other : Nat} :
    (link other).WaitsAt groups index k ↔ k = 0 ∧ index = other ∧ groups.lookup other = none := by
  constructor
  · intro h
    obtain rfl : k = 0 := Nat.lt_one_iff.1 h.lt_size
    obtain ⟨heq, hgroup⟩ := waitsAt_zero_iff.1 h
    obtain rfl := link.inj heq
    exact ⟨rfl, rfl, hgroup⟩
  · rintro ⟨rfl, rfl, hgroup⟩
    exact waitsAt_zero_iff.2 ⟨rfl, hgroup⟩

/-- A node with parts does not wait itself. -/
theorem WaitsAt.exists_succ (h : p.WaitsAt groups index k)
    (hnodes : p.nodes = p :: (part.nodes ++ behind)) : ∃ j, k = j + 1 := by
  refine Nat.exists_eq_add_one_of_ne_zero ?_
  rintro rfl
  obtain ⟨rfl, -⟩ := waitsAt_zero_iff.1 h
  have hsize := size_of_nodes hnodes
  have hpos := part.size_pos
  rw [size] at hsize
  omega

/-- A node with one part waits where the part does. -/
theorem waitsAt_body_iff (hnodes : p.nodes = p :: part.nodes) :
    p.WaitsAt groups index k ↔ ∃ j, k = j + 1 ∧ part.WaitsAt groups index j := by
  have hfirst : p.nodes = p :: (part.nodes ++ []) := by rw [List.append_nil, ← hnodes]
  have hsize := size_of_nodes hfirst
  rw [List.length_nil] at hsize
  constructor
  · intro h
    have hlt := h.lt_size
    obtain ⟨j, rfl⟩ := h.exists_succ hfirst
    exact ⟨j, rfl, (waitsAt_first hfirst (by omega)).1 h⟩
  · rintro ⟨j, rfl, h⟩
    exact (waitsAt_first hfirst h.lt_size).2 h

/-- A node with two parts waits where one of the parts does. -/
theorem waitsAt_parts_iff (hnodes : p.nodes = p :: (left.nodes ++ right.nodes)) (number : Nat) :
    p.WaitsAt groups index k ↔ (∃ j, k = j + 1 ∧ left.WaitsAt groups index j)
      ∨ ∃ j, k = left.size + j + 1
        ∧ right.WaitsAt ((left.completions number).reverse ++ groups) index j := by
  have hsize := size_of_nodes hnodes
  rw [length_nodes] at hsize
  constructor
  · intro h
    have hlt := h.lt_size
    obtain ⟨j, rfl⟩ := h.exists_succ hnodes
    by_cases hj : j < left.size
    · exact .inl ⟨j, rfl, (waitsAt_first hnodes hj).1 h⟩
    · obtain ⟨j, rfl⟩ := Nat.exists_eq_add_of_le (Nat.le_of_not_lt hj)
      exact .inr ⟨j, rfl, (waitsAt_second hnodes (by omega) number).1 h⟩
  · rintro (⟨j, rfl, h⟩ | ⟨j, rfl, h⟩)
    · exact (waitsAt_first hnodes h.lt_size).2 h
    · exact (waitsAt_second hnodes h.lt_size number).2 h

/-! ## The lists of a walk, place by place -/

/-- The links that wait behind a walk, with the names of their rules. -/
theorem mem_waiting_iff {name : NonTerminal} (number : Nat) :
    (name, index) ∈ p.waiting groups number
      ↔ ∃ k, name = ⟨number + k⟩ ∧ p.WaitsAt groups index k := by
  induction p generalizing groups number with
  | symbol c => simp only [waiting, waitsAt_symbol_iff, List.not_mem_nil, and_false, exists_false]
  | link other =>
      simp only [waitsAt_link_iff, waiting]
      cases groups.lookup other <;> simp [eq_comm]
  | star body ih | capture body other ih | group body ih | lookahead body ih =>
      rw [waiting, ih]
      constructor
      · rintro ⟨k, rfl, hbody⟩
        exact ⟨k + 1, by rw [Nat.add_assoc, Nat.add_comm 1],
          (waitsAt_body_iff rfl).2 ⟨k, rfl, hbody⟩⟩
      · rintro ⟨_, rfl, h⟩
        obtain ⟨k, rfl, hbody⟩ := (waitsAt_body_iff (by rfl)).1 h
        exact ⟨k, by rw [Nat.add_assoc, Nat.add_comm 1], hbody⟩
  | concat left right ihl ihr | alt left right ihl ihr =>
      rw [waiting, List.mem_append, ihl, ihr]
      constructor
      · rintro (⟨k, rfl, hleft⟩ | ⟨k, rfl, hright⟩)
        · exact ⟨k + 1, by rw [Nat.add_assoc, Nat.add_comm 1],
            (waitsAt_parts_iff rfl (number + 1)).2 (.inl ⟨k, rfl, hleft⟩)⟩
        · exact ⟨left.size + k + 1, by rw [NonTerminal.mk.injEq]; omega,
            (waitsAt_parts_iff rfl (number + 1)).2 (.inr ⟨k, rfl, hright⟩)⟩
      · rintro ⟨_, rfl, h⟩
        rcases (waitsAt_parts_iff (by rfl) (number + 1)).1 h
          with ⟨k, rfl, hleft⟩ | ⟨k, rfl, hright⟩
        · exact .inl ⟨k, by rw [Nat.add_assoc, Nat.add_comm 1], hleft⟩
        · exact .inr ⟨k, by rw [NonTerminal.mk.injEq]; omega, hright⟩

/-- The links that wait are listed in pre-order. -/
theorem pairwise_waiting (groups : List (Nat × NonTerminal)) (number : Nat) (p : Pattern) :
    (p.waiting groups number).Pairwise fun first second => first.1.number < second.1.number := by
  induction p generalizing groups number with
  | symbol c => exact .nil
  | link index =>
      unfold waiting
      split
      · exact .nil
      · exact List.pairwise_singleton ..
  | star body ih | capture body index ih | group body ih | lookahead body ih => exact ih ..
  | concat left right ihl ihr | alt left right ihl ihr =>
      rw [waiting, List.pairwise_append]
      refine ⟨ihl .., ihr .., ?_⟩
      rintro ⟨first, index⟩ hfirst ⟨second, index'⟩ hsecond
      obtain ⟨j, rfl, hj⟩ := (mem_waiting_iff _).1 hfirst
      obtain ⟨k, rfl, -⟩ := (mem_waiting_iff _).1 hsecond
      have hlt := hj.lt_size
      show number + 1 + j < number + 1 + left.size + k
      omega

/-- The numbers of the rules without an alternative, where `number` is the one of the first. -/
def emptyRules (number : Nat) (rules : List (List Alternative)) : List Nat :=
  (rules.zipIdx number).filterMap fun (rule, k) => if rule = [] then some k else none

theorem mem_emptyRules_iff {number : Nat} {rules : List (List Alternative)} :
    number + k ∈ emptyRules number rules ↔ rules[k]? = some [] := by
  simp [emptyRules, List.mem_zipIdx_iff_le_and_getElem?_sub]

theorem emptyRules_append (number : Nat) (first second : List (List Alternative)) :
    emptyRules number (first ++ second)
      = emptyRules number first ++ emptyRules (number + first.length) second := by
  rw [emptyRules, List.zipIdx_append, List.filterMap_append]
  rfl

/-- The rules without an alternative are those of the links that wait. -/
theorem emptyRules_draft (groups : List (Nat × NonTerminal)) (number : Nat) (p : Pattern) :
    emptyRules number (p.draft groups number)
      = (p.waiting groups number).map fun entry => entry.1.number := by
  induction p generalizing groups number with
  | symbol c => rfl
  | link index =>
      simp only [draft, rule, waiting]
      cases groups.lookup index <;> rfl
  | star body ih | capture body index ih | group body ih | lookahead body ih => exact ih ..
  | concat left right ihl ihr | alt left right ihl ihr =>
      have happend := emptyRules_append (number + 1) (left.draft groups (number + 1))
        (right.draft ((left.completions (number + 1)).reverse ++ groups) (number + 1 + left.size))
      rw [length_draft, ihl, ihr, ← List.map_append] at happend
      exact happend

end Pattern

namespace Grammar.Builder

variable {b b' : Builder} {p : Pattern} {name : NonTerminal}

/-! ## Any state -/

/-- A walk succeeds exactly if no capture has the index of another one or of a group in the table,
    and then it adds the lists of the pattern. -/
theorem add_eq_ok_iff {result : NonTerminal × Builder} :
    b.add p = .ok result ↔ (p.captures.Nodup ∧ ∀ index ∈ p.captures, b.groups.lookup index = none)
      ∧ (⟨b.nextNumber⟩, b.walked p) = result := by
  have hcheck : checkDistinct b.groups (p.completions b.nextNumber) = .ok ()
      ↔ p.captures.Nodup ∧ ∀ index ∈ p.captures, b.groups.lookup index = none := by
    rw [checkDistinct_eq_ok_iff, Pattern.map_fst_completions, p.completed_perm_captures.nodup_iff]
    simp only [p.completed_perm_captures.mem_iff]
  rw [add_eq, ← hcheck]
  cases checkDistinct b.groups (p.completions b.nextNumber) with
  | error e => exact iff_of_false (fun h => nomatch h) (fun h => nomatch h.1)
  | ok _ => exact ⟨fun h => ⟨rfl, Except.ok.inj h⟩, fun h => congrArg Except.ok h.2⟩

theorem get?_walked_of_le {k : Nat} (h : k ≤ b.grammar.size) :
    (b.walked p).grammar.get? ⟨k⟩ = b.grammar.get? ⟨k⟩ := by
  cases k with
  | zero => rfl
  | succ k => exact Array.getElem?_append_left h

theorem get?_walked_add (k : Nat) :
    (b.walked p).grammar.get? ⟨b.grammar.size + k + 1⟩
      = (p.draft b.groups b.nextNumber)[k]? := by
  show (b.grammar.rules ++ _)[b.grammar.rules.size + k]? = _
  rw [Array.getElem?_append_right (Nat.le_add_right ..), Nat.add_sub_cancel_left,
    List.getElem?_toArray]

/-- Behind a walk the table has the old groups, and the captures with the rules of their bodies. -/
theorem lookup_groups_walked (hdistinct : p.captures.Nodup)
    (hnew : ∀ index ∈ p.captures, b.groups.lookup index = none) {index : Nat}
    {rule : NonTerminal} :
    (b.walked p).groups.lookup index = some rule ↔ b.groups.lookup index = some rule
      ∨ ∃ k body, p.nodes[k]? = some (.capture body index)
        ∧ rule = ⟨b.grammar.size + k + 2⟩ := by
  have hfst : (p.completions b.nextNumber).reverse.map Prod.fst = p.completed.reverse := by
    rw [List.map_reverse, Pattern.map_fst_completions]
  have hcompleted : ((p.completions b.nextNumber).reverse.map Prod.fst).Nodup := by
    rw [hfst]
    exact List.nodup_reverse.2 (p.completed_perm_captures.nodup_iff.2 hdistinct)
  have hcaptured : (p.completions b.nextNumber).reverse.lookup index = some rule
      ↔ ∃ k body, p.nodes[k]? = some (.capture body index)
        ∧ rule = ⟨b.grammar.size + k + 2⟩ := by
    rw [lookup_eq_some_iff_mem hcompleted, List.mem_reverse, Pattern.mem_completions_iff]
    simp only [nextNumber, Nat.add_right_comm _ 1]
  rw [groups_walked, List.lookup_append, Option.or_eq_some_iff, hcaptured, or_comm]
  refine or_congr_left (and_iff_right_of_imp fun hold => ?_)
  -- No capture has the index of a group that was in the table.
  rw [lookup_eq_none_iff_not_mem, hfst, List.mem_reverse, p.completed_perm_captures.mem_iff]
  intro hmem
  exact Option.some_ne_none rule (hold.symm.trans (hnew index hmem))

/-- A walk that succeeds returns the next name and adds a rule for each node. Rules, groups and
    waiting links that were there before stay. Each capture becomes a group, with the rule of its
    body. The links that wait are put off in pre-order, and only their rules are still empty. -/
theorem add_effect (h : b.add p = .ok (name, b')) :
    name = ⟨b.grammar.size + 1⟩
      ∧ b'.grammar.size = b.grammar.size + p.size
      ∧ (∀ k ≤ b.grammar.size, b'.grammar.get? ⟨k⟩ = b.grammar.get? ⟨k⟩)
      ∧ p.captures.Nodup
      ∧ (∀ index ∈ p.captures, b.groups.lookup index = none)
      ∧ (∀ index rule, b'.groups.lookup index = some rule ↔ b.groups.lookup index = some rule
          ∨ ∃ k body, p.nodes[k]? = some (.capture body index)
            ∧ rule = ⟨b.grammar.size + k + 2⟩)
      ∧ ∃ links, b'.pending = b.pending ++ links
          ∧ links.Pairwise (fun first second => first.1.number < second.1.number)
          ∧ (∀ waiting index, (waiting, index) ∈ links
              ↔ ∃ k, waiting = ⟨b.grammar.size + k + 1⟩ ∧ p.WaitsAt b.groups index k)
          ∧ ∀ k < p.size, b'.grammar.get? ⟨b.grammar.size + k + 1⟩ = some []
              ↔ ∃ index, (⟨b.grammar.size + k + 1⟩, index) ∈ links := by
  obtain ⟨⟨hdistinct, hnew⟩, hresult⟩ := add_eq_ok_iff.1 h
  obtain ⟨rfl, rfl⟩ := Prod.mk.inj hresult
  have hnext (k : Nat) : b.nextNumber + k = b.grammar.size + k + 1 := Nat.add_right_comm ..
  refine ⟨rfl, ?_, fun k => get?_walked_of_le, hdistinct, hnew,
    fun index rule => lookup_groups_walked hdistinct hnew, p.waiting b.groups b.nextNumber, rfl,
    Pattern.pairwise_waiting .., ?_, ?_⟩
  · have hsize := b.nextNumber_walked p
    rw [hnext] at hsize
    exact Nat.succ.inj hsize
  · intro waiting index
    rw [Pattern.mem_waiting_iff]
    simp only [hnext]
  · intro k _
    -- The rules without an alternative are listed by their numbers, as the links that wait are.
    rw [get?_walked_add, ← Pattern.mem_emptyRules_iff, Pattern.emptyRules_draft, List.mem_map,
      hnext]
    constructor
    · rintro ⟨⟨⟨_⟩, index⟩, hmem, rfl⟩
      exact ⟨index, hmem⟩
    · rintro ⟨index, hmem⟩
      exact ⟨_, hmem, rfl⟩

/-- Group `7` is in the table. Of the links to group `2` one stands in front of the capture, one in
    it and one behind it, and only the last one does not wait. -/
theorem add_effect_around_capture :
    let b : Builder := ⟨⟨#[[[.epsilon]]]⟩, [(7, ⟨1⟩)], [(⟨1⟩, 3)]⟩
    let p : Pattern := .concat (.link 2)
      (.concat (.capture (.concat (.link 2) (.link 7)) 2) (.link 2))
    ∃ b', b.add p = .ok (⟨2⟩, b')
      ∧ b'.grammar.size = 9
      ∧ b'.grammar.get? ⟨1⟩ = some [[.epsilon]]
      ∧ b'.groups.lookup 2 = some ⟨6⟩
      ∧ b'.pending = [(⟨1⟩, 3), (⟨3⟩, 2), (⟨7⟩, 2)]
      ∧ (∀ index k, p.WaitsAt b.groups index k ↔ index = 2 ∧ (k = 1 ∨ k = 5))
      ∧ ∀ k < 8, b'.grammar.get? ⟨k + 2⟩ = some [] ↔ k = 1 ∨ k = 5 := by
  intro b p
  have hadd : b.add p = .ok (⟨2⟩, b.walked p) := add_eq_ok_iff.2 ⟨by decide, rfl⟩
  obtain ⟨-, hsize, hold, -, -, hgroups, links, hpending, -, hlinks, hempty⟩ := add_effect hadd
  obtain rfl : links = [(⟨3⟩, 2), (⟨7⟩, 2)] := (List.append_cancel_left hpending).symm
  have hmem (index k : Nat) : (NonTerminal.mk (k + 2), index) ∈ [(⟨3⟩, 2), (⟨7⟩, 2)]
      ↔ index = 2 ∧ (k = 1 ∨ k = 5) := by
    simp only [List.mem_cons, Prod.mk.injEq, NonTerminal.mk.injEq, List.not_mem_nil, or_false]
    omega
  have hname (k : Nat) : b.grammar.size + k + 1 = k + 2 := congrArg (· + 1) (Nat.add_comm 1 k)
  have hcapture : p.nodes[3]? = some (.capture (.concat (.link 2) (.link 7)) 2) := rfl
  refine ⟨b.walked p, hadd, hsize, hold 1 (Nat.le_refl 1), ?_, hpending, ?_, ?_⟩
  · exact (hgroups 2 ⟨6⟩).2 (.inr ⟨3, _, hcapture, rfl⟩)
  · intro index k
    rw [← hmem, hlinks]
    constructor
    · intro hwait
      exact ⟨k, by rw [hname], hwait⟩
    · rintro ⟨j, hj, hwait⟩
      rw [hname, NonTerminal.mk.injEq, Nat.add_right_cancel_iff] at hj
      rwa [hj]
  · intro k hk
    have hiff := hempty k hk
    rw [hname] at hiff
    simp only [hiff, hmem, exists_eq_left]

end Grammar.Builder

end PatternGrammar
