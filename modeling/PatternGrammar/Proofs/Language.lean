import Mathlib.Computability.ContextFreeGrammar
import PatternGrammar.Proofs.Placement

set_option autoImplicit false

/-! # The language of a pattern and of its grammar

A pattern says which words it matches, and its grammar says which words each of its non-terminals
derives. `derives_iff_matches` is the agreement of the two at every node. Neither side is given by
recursion on the tree, because a link may lead back to a group around it: matching is the least
relation closed under its rules, and deriving is a sequence of rewriting steps. So one direction
goes along a proof of matching, and the other one along the steps of a derivation, backwards, with
a meaning (`Pattern.Spells`) for every form between the start and the word. -/

namespace PatternGrammar

/-- What stands between the start of a derivation and its word. -/
abbrev SententialForm := List (Symbol Char NonTerminal)

namespace Grammar

/-! ## Derivation -/

/-- An alternative as a sentential form, in which the empty word is not written. -/
def sententialForm (alternative : Alternative) : SententialForm :=
  alternative.filterMap fun
    | .terminal c => some (.terminal c)
    | .nonTerminal name => some (.nonterminal name)
    | .epsilon => none

/-- The rules of a grammar, one for each alternative. -/
def rewriteRules (g : Grammar) : List (ContextFreeRule Char NonTerminal) :=
  g.entries.flatMap fun (name, alternatives) =>
    alternatives.map fun alternative => ⟨name, sententialForm alternative⟩

/-- A grammar as a context-free one, which starts with the first non-terminal. -/
def toContextFree (g : Grammar) : ContextFreeGrammar Char where
  NT := NonTerminal
  initial := ⟨1⟩
  rules := g.rewriteRules.toFinset

/-- A non-terminal derives a word: finitely many rewriting steps lead from the one to the other. -/
def Derives (g : Grammar) (name : NonTerminal) (word : List Char) : Prop :=
  g.toContextFree.Derives [.nonterminal name] (word.map .terminal)

theorem mem_rules_iff {g : Grammar} {rule : ContextFreeRule Char NonTerminal} :
    rule ∈ g.toContextFree.rules ↔ ∃ alternatives, g.get? rule.input = some alternatives
      ∧ ∃ alternative ∈ alternatives, sententialForm alternative = rule.output := by
  have hlist : rule ∈ g.toContextFree.rules ↔ rule ∈ g.rewriteRules := List.mem_toFinset
  rw [hlist, rewriteRules, List.mem_flatMap]
  constructor
  · rintro ⟨⟨name, alternatives⟩, hentry, hmem⟩
    obtain ⟨alternative, halternative, rfl⟩ := List.mem_map.1 hmem
    exact ⟨alternatives, mem_entries_iff.1 hentry, alternative, halternative, rfl⟩
  · rintro ⟨alternatives, hget, alternative, halternative, houtput⟩
    refine ⟨(rule.input, alternatives), mem_entries_iff.2 hget, List.mem_map.2 ?_⟩
    exact ⟨alternative, halternative, by rw [houtput]⟩

/-- A rewriting step puts an alternative in the place of a non-terminal. -/
theorem exists_of_produces {g : Grammar} {form next : SententialForm}
    (h : g.toContextFree.Produces form next) :
    ∃ (before behind : SententialForm) (name : NonTerminal) (alternatives : List Alternative)
      (alternative : Alternative), g.get? name = some alternatives ∧ alternative ∈ alternatives
      ∧ form = before ++ .nonterminal name :: behind
      ∧ next = before ++ (sententialForm alternative ++ behind) := by
  obtain ⟨rule, hrule, hrewrites⟩ := h
  obtain ⟨before, behind, rfl, rfl⟩ := hrewrites.exists_parts
  obtain ⟨alternatives, hget, alternative, hmem, houtput⟩ := mem_rules_iff.1 hrule
  refine ⟨before, behind, rule.input, alternatives, alternative, hget, hmem, ?_, ?_⟩
  · exact List.append_assoc ..
  · rw [houtput]
    exact List.append_assoc ..

/-- A derivation may begin with any alternative of its non-terminal. -/
theorem derives_of_alternative {g : Grammar} {name : NonTerminal}
    {alternatives : List Alternative} (hget : g.get? name = some alternatives)
    {alternative : Alternative} (hmem : alternative ∈ alternatives) {word : List Char}
    (h : g.toContextFree.Derives (sententialForm alternative) (word.map .terminal)) :
    g.Derives name word := by
  have hrule : (⟨name, sententialForm alternative⟩ : ContextFreeRule Char NonTerminal)
      ∈ g.toContextFree.rules := mem_rules_iff.2 ⟨alternatives, hget, alternative, hmem, rfl⟩
  have hstep : g.toContextFree.Produces [.nonterminal name] (sententialForm alternative) :=
    ⟨_, hrule, ContextFreeRule.Rewrites.input_output⟩
  exact hstep.trans_derives h

/-- Two non-terminals side by side derive the words of the one before the words of the other. -/
theorem derives_pair {g : Grammar} {first second : NonTerminal} {u v : List Char}
    (hu : g.Derives first u) (hv : g.Derives second v) :
    g.toContextFree.Derives [.nonterminal first, .nonterminal second]
      ((u ++ v).map .terminal) := by
  rw [List.map_append]
  exact (hu.append_right [.nonterminal second]).trans (hv.append_left (u.map .terminal))

end Grammar

namespace Pattern

/-! ## Matching -/

/-- The words that the nodes of `p` match. Groups of all kinds are transparent, and a link matches
    what the body of the capture with its index matches. -/
inductive Matches (p : Pattern) : Pattern → List Char → Prop where
  | symbol (c : Char) : Matches p (symbol c) [c]
  | concat {left right : Pattern} {u v : List Char} :
      Matches p left u → Matches p right v → Matches p (concat left right) (u ++ v)
  | altLeft {left right : Pattern} {w : List Char} :
      Matches p left w → Matches p (alt left right) w
  | altRight {left right : Pattern} {w : List Char} :
      Matches p right w → Matches p (alt left right) w
  | starNil {body : Pattern} : Matches p (star body) []
  | starCons {body : Pattern} {u v : List Char} :
      Matches p body u → Matches p (star body) v → Matches p (star body) (u ++ v)
  | capture {body : Pattern} {index : Nat} {w : List Char} :
      Matches p body w → Matches p (capture body index) w
  | group {body : Pattern} {w : List Char} : Matches p body w → Matches p (group body) w
  | lookahead {body : Pattern} {w : List Char} : Matches p body w → Matches p (lookahead body) w
  | link {body : Pattern} {index : Nat} {w : List Char} :
      capture body index ∈ p.nodes → Matches p body w → Matches p (link index) w

section

variable {p node : Pattern} {g : Grammar} {k : Nat}

/-- The rule of a non-terminal derives what the node at its place matches. -/
theorem derives_of_matches (h : p.grammar = .ok g) (hnode : p.nodeAt? k = some node)
    {w : List Char} (hmatch : p.Matches node w) : g.Derives ⟨k⟩ w := by
  induction hmatch generalizing k with
  | symbol c =>
      obtain ⟨_, hget, ⟨⟩⟩ := get?_grammar h hnode
      exact Grammar.derives_of_alternative hget (List.mem_singleton_self _)
        (ContextFreeGrammar.Derives.refl _)
  | concat hleft hright ihl ihr =>
      obtain ⟨_, hget, ⟨⟩⟩ := get?_grammar h hnode
      refine Grammar.derives_of_alternative hget (List.mem_singleton_self _) ?_
      exact Grammar.derives_pair (ihl (nodeAt?_left hnode rfl)) (ihr (nodeAt?_right hnode rfl))
  | altLeft hleft ih =>
      obtain ⟨_, hget, ⟨⟩⟩ := get?_grammar h hnode
      exact Grammar.derives_of_alternative hget (List.mem_cons_self ..)
        (ih (nodeAt?_left hnode rfl))
  | altRight hright ih =>
      obtain ⟨_, hget, ⟨⟩⟩ := get?_grammar h hnode
      exact Grammar.derives_of_alternative hget
        (List.mem_cons_of_mem _ (List.mem_singleton_self _)) (ih (nodeAt?_right hnode rfl))
  | starNil =>
      obtain ⟨_, hget, ⟨⟩⟩ := get?_grammar h hnode
      exact Grammar.derives_of_alternative hget
        (List.mem_cons_of_mem _ (List.mem_singleton_self _)) (ContextFreeGrammar.Derives.refl _)
  | starCons hbody hstar ihb ihs =>
      obtain ⟨_, hget, ⟨⟩⟩ := get?_grammar h hnode
      refine Grammar.derives_of_alternative hget (List.mem_cons_self ..) ?_
      exact Grammar.derives_pair (ihb (nodeAt?_body hnode rfl)) (ihs hnode)
  | capture hbody ih | group hbody ih | lookahead hbody ih =>
      obtain ⟨_, hget, ⟨⟩⟩ := get?_grammar h hnode
      exact Grammar.derives_of_alternative hget (List.mem_singleton_self _)
        (ih (nodeAt?_body hnode rfl))
  | link hcapture hbody ih =>
      obtain ⟨_, hget, hrule⟩ := get?_grammar h hnode
      -- The capture that the word was matched with is the one that the rule refers to.
      obtain ⟨k', hk'⟩ := mem_nodes_iff.1 hcapture
      cases hrule with
      | link index j target =>
          obtain rfl := (target k').1 ⟨_, hk'⟩
          exact Grammar.derives_of_alternative hget (List.mem_singleton_self _)
            (ih (nodeAt?_body hk' rfl))

/-! ## The meaning of sentential forms -/

/-- The words that a sentential form stands for if each non-terminal stands for what the node at
    its place matches. -/
def Spells (p : Pattern) : SententialForm → List Char → Prop
  | [], w => w = []
  | .terminal c :: rest, w => ∃ v, p.Spells rest v ∧ w = c :: v
  | .nonterminal name :: rest, w => ∃ node u v,
      p.nodeAt? name.number = some node ∧ p.Matches node u ∧ p.Spells rest v ∧ w = u ++ v

theorem spells_terminals (p : Pattern) (w : List Char) : p.Spells (w.map .terminal) w := by
  induction w with
  | nil => rfl
  | cons c rest ih => exact ⟨rest, ih, rfl⟩

theorem spells_append_iff {p : Pattern} {first second : SententialForm} {w : List Char} :
    p.Spells (first ++ second) w ↔ ∃ u v, p.Spells first u ∧ p.Spells second v ∧ w = u ++ v := by
  induction first generalizing w with
  | nil =>
      constructor
      · intro h
        exact ⟨[], w, rfl, h, rfl⟩
      · rintro ⟨u, v, rfl, h, rfl⟩
        exact h
  | cons symbol rest ih =>
      cases symbol with
      | terminal c =>
          simp only [List.cons_append, Spells, ih]
          constructor
          · rintro ⟨_, ⟨u, v, hu, hv, rfl⟩, rfl⟩
            exact ⟨c :: u, v, ⟨u, hu, rfl⟩, hv, rfl⟩
          · rintro ⟨_, v, ⟨u, hu, rfl⟩, hv, rfl⟩
            exact ⟨u ++ v, ⟨u, v, hu, hv, rfl⟩, rfl⟩
      | nonterminal name =>
          simp only [List.cons_append, Spells, ih]
          constructor
          · rintro ⟨node, x, _, hnode, hx, ⟨u, v, hu, hv, rfl⟩, rfl⟩
            exact ⟨x ++ u, v, ⟨node, x, u, hnode, hx, hu, rfl⟩, hv, (List.append_assoc ..).symm⟩
          · rintro ⟨_, v, ⟨node, x, u, hnode, hx, hu, rfl⟩, hv, rfl⟩
            exact ⟨node, x, u ++ v, hnode, hx, ⟨u, v, hu, hv, rfl⟩, List.append_assoc ..⟩

theorem spells_nonterminal_iff (hnode : p.nodeAt? k = some node) {w : List Char} :
    p.Spells [.nonterminal ⟨k⟩] w ↔ p.Matches node w := by
  simp [Spells, hnode]

theorem spells_pair_iff {left right : Pattern} {j : Nat} (hleft : p.nodeAt? k = some left)
    (hright : p.nodeAt? j = some right) {w : List Char} :
    p.Spells [.nonterminal ⟨k⟩, .nonterminal ⟨j⟩] w
      ↔ ∃ u v, p.Matches left u ∧ p.Matches right v ∧ w = u ++ v := by
  rw [← List.singleton_append, spells_append_iff]
  simp only [spells_nonterminal_iff hleft, spells_nonterminal_iff hright]

/-- A node matches whatever an alternative of its rule stands for. -/
theorem matches_of_spells (hnode : p.nodeAt? k = some node)
    {alternatives : List Grammar.Alternative} (hrule : p.Dictates k node alternatives)
    {alternative : Grammar.Alternative} (hmem : alternative ∈ alternatives) {w : List Char}
    (h : p.Spells (Grammar.sententialForm alternative) w) : p.Matches node w := by
  cases hrule with
  | symbol c =>
      obtain rfl := List.mem_singleton.1 hmem
      obtain ⟨_, rfl, rfl⟩ := h
      exact .symbol c
  | star body =>
      rcases List.mem_pair.1 hmem with rfl | rfl
      · obtain ⟨u, v, hu, hv, rfl⟩ := (spells_pair_iff (nodeAt?_body hnode rfl) hnode).1 h
        exact .starCons hu hv
      · obtain rfl := h
        exact .starNil
  | capture body index =>
      obtain rfl := List.mem_singleton.1 hmem
      exact .capture ((spells_nonterminal_iff (nodeAt?_body hnode rfl)).1 h)
  | group body =>
      obtain rfl := List.mem_singleton.1 hmem
      exact .group ((spells_nonterminal_iff (nodeAt?_body hnode rfl)).1 h)
  | lookahead body =>
      obtain rfl := List.mem_singleton.1 hmem
      exact .lookahead ((spells_nonterminal_iff (nodeAt?_body hnode rfl)).1 h)
  | concat left right =>
      obtain rfl := List.mem_singleton.1 hmem
      obtain ⟨u, v, hu, hv, rfl⟩ :=
        (spells_pair_iff (nodeAt?_left hnode rfl) (nodeAt?_right hnode rfl)).1 h
      exact .concat hu hv
  | alt left right =>
      rcases List.mem_pair.1 hmem with rfl | rfl
      · exact .altLeft ((spells_nonterminal_iff (nodeAt?_left hnode rfl)).1 h)
      · exact .altRight ((spells_nonterminal_iff (nodeAt?_right hnode rfl)).1 h)
  | link index j target =>
      obtain rfl := List.mem_singleton.1 hmem
      obtain ⟨body, hcapture⟩ := (target j).2 rfl
      exact .link (mem_nodes_iff.2 ⟨j, hcapture⟩)
        ((spells_nonterminal_iff (nodeAt?_body hcapture rfl)).1 h)

/-- A form stands for whatever the form behind a rewriting step stands for. -/
theorem spells_of_produces (h : p.grammar = .ok g) {form next : SententialForm}
    (hstep : g.toContextFree.Produces form next) {w : List Char} (hw : p.Spells next w) :
    p.Spells form w := by
  obtain ⟨before, behind, ⟨k⟩, alternatives, alternative, hget, hmem, rfl, rfl⟩ :=
    Grammar.exists_of_produces hstep
  obtain ⟨node, hnode⟩ := exists_nodeAt? h hget
  obtain ⟨_, hget', hdictates⟩ := get?_grammar h hnode
  obtain rfl := Option.some.inj (hget.symm.trans hget')
  rw [spells_append_iff] at hw ⊢
  obtain ⟨u, _, hu, hrest, rfl⟩ := hw
  obtain ⟨x, v, hx, hv, rfl⟩ := spells_append_iff.1 hrest
  have hmatch := matches_of_spells hnode hdictates hmem hx
  exact ⟨u, x ++ v, hu, ⟨node, x, v, hnode, hmatch, hv, rfl⟩, rfl⟩

/-- Every form of a derivation stands for the word at its end. -/
theorem spells_of_derives (h : p.grammar = .ok g) {form : SententialForm} {w : List Char}
    (hderives : g.toContextFree.Derives form (w.map .terminal)) : p.Spells form w := by
  induction hderives using Relation.ReflTransGen.head_induction_on with
  | refl => exact p.spells_terminals w
  | head hstep _ ih => exact spells_of_produces h hstep ih

theorem matches_of_derives (h : p.grammar = .ok g) (hnode : p.nodeAt? k = some node)
    {w : List Char} (hderives : g.Derives ⟨k⟩ w) : p.Matches node w :=
  (spells_nonterminal_iff hnode).1 (spells_of_derives h hderives)

end

/-- Every non-terminal of the grammar of a pattern derives exactly what the node at its place
    matches, and the start derives exactly what the pattern matches. -/
theorem derives_iff_matches {p : Pattern} {g : Grammar} (h : p.grammar = .ok g) :
    (∀ k node, p.nodeAt? k = some node → ∀ word, g.Derives ⟨k⟩ word ↔ p.Matches node word)
      ∧ g.start? = some ⟨1⟩ ∧ ∀ word, word ∈ g.toContextFree.language ↔ p.Matches p word := by
  have hnodes : ∀ k node, p.nodeAt? k = some node →
      ∀ word, g.Derives ⟨k⟩ word ↔ p.Matches node word := by
    intro k node hnode word
    exact ⟨matches_of_derives h hnode, derives_of_matches h hnode⟩
  have hsize : 0 < g.size := by
    rw [(grammar_eq_ok_iff.1 h).2.2, Grammar.size, List.size_toArray, length_placement]
    exact p.size_pos
  have hempty : g.isEmpty = false := Array.isEmpty_eq_false_iff.2 (Array.ne_empty_of_size_pos hsize)
  refine ⟨hnodes, ?_, ?_⟩
  · rw [Grammar.start?, hempty]
    rfl
  · intro word
    exact hnodes 1 p p.nodeAt?_one word

/-- In `(a(?1)|b)` the link stands inside of its group, which so matches itself again. -/
theorem derives_iff_matches_recursive :
    ∃ g, (capture (alt (concat (symbol 'a') (link 1)) (symbol 'b')) 1).grammar = .ok g
      ∧ ['a', 'a', 'b'] ∈ g.toContextFree.language := by
  have hgrammar : (capture (alt (concat (symbol 'a') (link 1)) (symbol 'b')) 1).grammar
      = .ok ⟨#[[[.nonTerminal ⟨2⟩]], [[.nonTerminal ⟨3⟩], [.nonTerminal ⟨6⟩]],
        [[.nonTerminal ⟨4⟩, .nonTerminal ⟨5⟩]], [[.terminal 'a']], [[.nonTerminal ⟨2⟩]],
        [[.terminal 'b']]]⟩ := rfl
  refine ⟨_, hgrammar, ((derives_iff_matches hgrammar).2.2 _).2 (.capture ?_)⟩
  have hcapture := mem_nodes_self (capture (alt (concat (symbol 'a') (link 1)) (symbol 'b')) 1)
  -- The word is read as an `a` and the link, which is an `a` and the link again, which is a `b`.
  refine .altLeft (.concat (.symbol 'a') (.link hcapture ?_))
  refine .altLeft (.concat (.symbol 'a') (.link hcapture ?_))
  exact .altRight (.symbol 'b')

end Pattern

end PatternGrammar
