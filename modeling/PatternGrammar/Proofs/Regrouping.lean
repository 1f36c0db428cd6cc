import Mathlib
import PatternGrammar.Proofs.Agreement
import PatternGrammar.Proofs.Image
import PatternGrammar.Proofs.Language

set_option autoImplicit false

/-! # What the added groups do not change

The tree that is read from the canonical text of another one has the groups that the printer adds.
They are nodes with rules of their own, so the two trees have different grammars. But no rule of
validity is about groups, no link names one, and a group matches what is inside of it. So the
verdict, the error and the language are the same (`Pattern.reread_agrees`). -/

namespace PatternGrammar.Pattern

/-! ## Verdicts and errors -/

theorem check_asOperand (declared : Std.TreeSet Nat) (inLookahead : Bool) (p : Pattern) :
    p.asTerm.check declared inLookahead = p.check declared inLookahead
      ∧ p.asItem.check declared inLookahead = p.check declared inLookahead :=
  asOperand_of_group
    (P := fun operand => operand.check declared inLookahead = p.check declared inLookahead)
    (fun _ h => h) rfl

theorem check_grouped (declared : Std.TreeSet Nat) (inLookahead : Bool) (p : Pattern) :
    p.grouped.check declared inLookahead = p.check declared inLookahead := by
  induction p generalizing inLookahead with
  | symbol c | link index => rfl
  | group body ih => exact ih inLookahead
  | star body ih | capture body index ih | lookahead body ih =>
      simp only [grouped, check, check_asOperand, ih]
  | concat left right ihl ihr | alt left right ihl ihr =>
      simp only [grouped, check, check_asOperand, ihl, ihr]

theorem validate_grouped (p : Pattern) : p.grouped.validate = p.validate := by
  rw [validate, check_grouped, groups, captures_grouped]
  rfl

theorem links_grouped (p : Pattern) : p.grouped.links = p.links := by
  have hnode : (fun node => linkIndex? (grouped node)) = linkIndex? := by
    funext node
    cases node <;> rfl
  rw [links_eq_filterMap, filterMap_nodes_grouped (fun _ => rfl), hnode, links_eq_filterMap]

theorem grammar_grouped_eq_error_iff {p : Pattern} (h : p.captures.Nodup) {e : BuildError} :
    p.grouped.grammar = .error e ↔ p.grammar = .error e := by
  have hgrouped : p.grouped.captures.Nodup := by rwa [captures_grouped]
  have hmissing (index : Nat) : p.grouped.IsFirstMissing index ↔ p.IsFirstMissing index := by
    unfold IsFirstMissing
    rw [links_grouped, captures_grouped]
  simp only [grammar_eq_error_iff h, grammar_eq_error_iff hgrouped, hmissing]

/-! ## Languages -/

/-- The captures of the grouped pattern are those of the pattern, with their bodies grouped. -/
theorem capture_mem_nodes_grouped_iff {p body' : Pattern} {index : Nat} :
    capture body' index ∈ p.grouped.nodes
      ↔ ∃ body, capture body index ∈ p.nodes ∧ body.grouped = body' := by
  have hgroup (body : Pattern) : Option.guard (· = capture body' index) (group body) = none := by
    simp
  have hmem := congrArg (capture body' index ∈ ·) (filterMap_nodes_grouped hgroup p)
  simp only [List.mem_filterMap, Option.guard_eq_some_iff, decide_eq_true_eq, eq_iff_iff] at hmem
  constructor
  · intro h
    obtain ⟨node, hnode, heq, -⟩ := hmem.1 ⟨_, h, rfl, rfl⟩
    cases node <;> cases heq
    exact ⟨_, hnode, rfl⟩
  · rintro ⟨body, hbody, rfl⟩
    obtain ⟨_, h, rfl, -⟩ := hmem.2 ⟨_, hbody, rfl, rfl⟩
    exact h

variable {p node : Pattern} {w : List Char}

theorem matches_group_iff : p.Matches (group node) w ↔ p.Matches node w := by
  constructor
  · rintro ⟨⟩
    assumption
  · exact .group

theorem matches_asOperand :
    (p.Matches node.asTerm w ↔ p.Matches node w) ∧ (p.Matches node.asItem w ↔ p.Matches node w) :=
  asOperand_of_group (P := fun operand => p.Matches operand w ↔ p.Matches node w)
    (fun _ h => matches_group_iff.trans h) Iff.rfl

theorem matches_grouped_of_matches (h : p.Matches node w) : p.grouped.Matches node.grouped w := by
  induction h with
  | symbol c => exact .symbol c
  | concat _ _ ihl ihr => exact .concat (matches_asOperand.1.2 ihl) (matches_asOperand.2.2 ihr)
  | altLeft _ ih => exact .altLeft ih
  | altRight _ ih => exact .altRight (matches_asOperand.1.2 ih)
  | starNil => exact .starNil
  | starCons _ _ ihb ihs => exact .starCons (matches_asOperand.2.2 ihb) ihs
  | capture _ ih => exact .capture ih
  | group _ ih => exact .group ih
  | lookahead _ ih => exact .lookahead ih
  | link hcapture _ ih =>
      exact .link (capture_mem_nodes_grouped_iff.2 ⟨_, hcapture, rfl⟩) ih

/-- What a node of the grouped pattern matches, any node that it comes from matches. -/
theorem matches_of_matches_grouped {node' : Pattern} (h : p.grouped.Matches node' w)
    (hnode : node.grouped = node') : p.Matches node w := by
  induction h generalizing node with
  | symbol c =>
      cases node <;> cases hnode
      exact .symbol c
  | concat _ _ ihl ihr =>
      -- An operand comes from the operand of the pattern with the same group around it.
      cases node <;> cases hnode
      exact .concat (matches_asOperand.1.1 (ihl (grouped_asTerm _)))
        (matches_asOperand.2.1 (ihr (grouped_asItem _)))
  | altLeft _ ih =>
      cases node <;> cases hnode
      exact .altLeft (ih rfl)
  | altRight _ ih =>
      cases node <;> cases hnode
      exact .altRight (matches_asOperand.1.1 (ih (grouped_asTerm _)))
  | starNil =>
      cases node <;> cases hnode
      exact .starNil
  | starCons _ _ ihb ihs =>
      cases node <;> cases hnode
      exact .starCons (matches_asOperand.2.1 (ihb (grouped_asItem _))) (ihs rfl)
  | capture _ ih =>
      cases node <;> cases hnode
      exact .capture (ih rfl)
  | group _ ih =>
      cases node <;> cases hnode
      exact .group (ih rfl)
  | lookahead _ ih =>
      cases node <;> cases hnode
      exact .lookahead (ih rfl)
  | link hcapture _ ih =>
      cases node <;> cases hnode
      obtain ⟨body, hbody, hgrouped⟩ := capture_mem_nodes_grouped_iff.1 hcapture
      exact .link hbody (ih hgrouped)

theorem matches_grouped_iff : p.grouped.Matches p.grouped w ↔ p.Matches p w :=
  ⟨fun h => matches_of_matches_grouped h rfl, matches_grouped_of_matches⟩

/-! ## Grammars of the tree and of the tree that is read -/

theorem start?_of_grammar {g : Grammar} (h : p.grammar = .ok g) : g.start? = some ⟨1⟩ := by
  obtain ⟨alternatives, hget, -⟩ := get?_grammar h p.nodeAt?_one
  obtain ⟨hlt, -⟩ := Array.getElem?_eq_some_iff.1 hget
  exact if_neg (by simpa [Grammar.isEmpty] using Array.ne_empty_of_size_pos hlt)

theorem derives_start_iff {g : Grammar} (h : p.grammar = .ok g) :
    g.Derives ⟨1⟩ w ↔ p.Matches p w :=
  ⟨matches_of_derives h p.nodeAt?_one, derives_of_matches h p.nodeAt?_one⟩

/-- A tree that can be written and whose captures are numbered in order may be printed and read
    again. The tree that is read gets the same verdict, it is refused a grammar for the same error,
    and the starts of the two grammars derive the same words. -/
theorem reread_agrees (hsymbols : ∀ c, symbol c ∈ p.nodes → c.isAlphanum)
    (hlinks : ∀ index, link index ∈ p.nodes → index ≤ 9)
    (hnumbered : p.captures = List.range' 1 p.captureCount) (hfew : p.captureCount ≤ 9) :
    ∃ q, parse p.text = .ok q
      ∧ q.validate = p.validate
      ∧ (∀ e, q.grammar = .error e ↔ p.grammar = .error e)
      ∧ ∀ g g', p.grammar = .ok g → q.grammar = .ok g' →
        ∃ start start', g.start? = some start ∧ g'.start? = some start'
          ∧ ∀ word, g.Derives start word ↔ g'.Derives start' word := by
  have hdistinct : p.captures.Nodup := hnumbered ▸ List.nodup_range'
  have hnormal : p.normal = p.grouped := by
    refine renumber_eq_self ?_
    rw [captures_grouped, captureCount_grouped]
    exact hnumbered
  refine ⟨p.grouped, ?_, p.validate_grouped, fun e => grammar_grouped_eq_error_iff hdistinct, ?_⟩
  · rw [parse_of_isWritten (isWritten hsymbols hlinks).alternative, if_neg (Nat.not_lt.2 hfew),
      hnormal]
  · intro g g' h h'
    refine ⟨⟨1⟩, ⟨1⟩, start?_of_grammar h, start?_of_grammar h', fun word => ?_⟩
    rw [derives_start_iff h, derives_start_iff h', matches_grouped_iff]

/-- The text `(?:a(b|(?1)))*` has a group that the tree does not have, which moves all rules behind
    the first one. -/
theorem reread_agrees_around :
    ∃ g g', (star (concat (symbol 'a') (capture (alt (symbol 'b') (link 1)) 1))).grammar = .ok g
      ∧ (star (group (concat (symbol 'a') (capture (alt (symbol 'b') (link 1)) 1)))).grammar
        = .ok g'
      ∧ g ≠ g' ∧ ∀ word, g.Derives ⟨1⟩ word ↔ g'.Derives ⟨1⟩ word := by
  obtain ⟨q, hparse, -, -, hgrammars⟩ :=
    reread_agrees (p := star (concat (symbol 'a') (capture (alt (symbol 'b') (link 1)) 1)))
      (by simp [nodes]) (by simp [nodes]) rfl (by decide)
  have hread : parse (star (concat (symbol 'a') (capture (alt (symbol 'b') (link 1)) 1))).text
      = .ok (star (group (concat (symbol 'a') (capture (alt (symbol 'b') (link 1)) 1)))) := by
    cbv
  obtain rfl := Except.ok.inj (hparse.symm.trans hread)
  obtain ⟨start, start', hstart, hstart', hderives⟩ := hgrammars _ _ rfl rfl
  obtain rfl := Option.some.inj hstart
  obtain rfl := Option.some.inj hstart'
  exact ⟨_, _, rfl, rfl, by decide, hderives⟩

end PatternGrammar.Pattern
