import PatternGrammar.Conversion
import PatternGrammar.Proofs.Lossless
import PatternGrammar.Proofs.Refusals
import PatternGrammar.Proofs.Violations

set_option autoImplicit false

/-! # Validation and building agree

Both steps look for links without a capture, by different means: validation collects the captures
first and stops at the first such link, building records them on its way and goes through the links
that waited at the end. They find the same link. And since reading numbers the captures one after
another, the only other reason to refuse a grammar never comes up for a pattern that was read, so
that a conversion does not fail in its last step (`validation_predicts_grammar`). -/

namespace PatternGrammar

namespace Pattern

variable {p : Pattern}

/-! ## The first link without a capture -/

/-- The index that a node refers to, if the node is a link. -/
def linkIndex? : Pattern → Option Nat
  | link index => some index
  | _ => none

theorem linkIndex?_eq_some_iff {node : Pattern} {index : Nat} :
    node.linkIndex? = some index ↔ node = link index := by
  cases node <;> simp [linkIndex?]

theorem links_eq_filterMap (p : Pattern) : p.links = p.nodes.filterMap linkIndex? := by
  induction p with
  | symbol c | link index => rfl
  | star body ih | capture body index ih | group body ih | lookahead body ih => exact ih
  | concat left right ihl ihr | alt left right ihl ihr =>
      rw [links, ihl, ihr, ← List.filterMap_append]
      rfl

/-- A link that breaks no rule has a capture. -/
theorem mem_captures_of_violation? {around : List Pattern} {index : Nat}
    (h : p.violation? (around, link index) = none) : index ∈ p.captures := by
  by_contra hmissing
  simp [violation?, hmissing] at h

theorem mem_captures_of_validate (h : p.validate = .ok ()) :
    ∀ index ∈ p.links, index ∈ p.captures := by
  intro index hindex
  rw [validate_eq_verdict, verdict_eq_ok_iff] at h
  rw [mem_links_iff, ← map_snd_lineages []] at hindex
  obtain ⟨⟨around, node⟩, hentry, rfl⟩ := List.mem_map.1 hindex
  exact mem_captures_of_violation? (h _ hentry)

/-- If a link is the first violation, then no link before it lacks a capture. -/
theorem isFirstMissing_of_validate {index : Nat}
    (h : p.validate = .error (.undeclaredGroup index)) : p.IsFirstMissing index := by
  rw [validate_eq_verdict, verdict_eq_error_iff] at h
  obtain ⟨before, ⟨around, node⟩, behind, hentries, hviolation, hbefore⟩ := h
  cases violation?_eq_some_iff.1 hviolation with
  | link undeclared =>
      have hnodes : p.nodes = before.map Prod.snd ++ link index :: behind.map Prod.snd := by
        rw [← map_snd_lineages [], hentries, List.map_append, List.map_cons]
      refine ⟨(before.map Prod.snd).filterMap linkIndex?,
        (behind.map Prod.snd).filterMap linkIndex?, ?_, ?_, ?_⟩
      · rw [links_eq_filterMap, hnodes, List.filterMap_append]
        rfl
      · intro earlier hearlier
        obtain ⟨node, hnode, hindex⟩ := List.mem_filterMap.1 hearlier
        obtain ⟨entry, hentry, rfl⟩ := List.mem_map.1 hnode
        have hobeys : p.violation? (entry.1, link earlier) = none := by
          rw [← linkIndex?_eq_some_iff.1 hindex]
          exact hbefore entry hentry
        exact mem_captures_of_violation? hobeys
      · intro hmem
        obtain ⟨body, hbody⟩ := mem_captures_iff.1 hmem
        exact undeclared body hbody

/-! ## What validation says about building -/

theorem exists_grammar_of_validate (hdistinct : p.captures.Nodup) (h : p.validate = .ok ()) :
    ∃ g, p.grammar = .ok g :=
  grammar_of_present hdistinct (mem_captures_of_validate h)

theorem grammar_of_undeclaredGroup (hdistinct : p.captures.Nodup) {index : Nat}
    (h : p.validate = .error (.undeclaredGroup index)) :
    p.grammar = .error (.unresolvedLink index) :=
  grammar_of_isFirstMissing hdistinct (isFirstMissing_of_validate h)

/-- Only links can keep a pattern from having a grammar whose captures have different indices. -/
theorem exists_grammar_or_unresolvedLink (hdistinct : p.captures.Nodup) :
    (∃ g, p.grammar = .ok g) ∨ ∃ index, p.grammar = .error (.unresolvedLink index) := by
  by_cases hlinks : ∀ index ∈ p.links, index ∈ p.captures
  · exact .inl (grammar_of_present hdistinct hlinks)
  · have hmissing : ∃ index ∈ p.links, index ∉ p.captures := by
      simpa using hlinks
    obtain ⟨index, hindex⟩ := exists_isFirstMissing hmissing
    exact .inr ⟨index, grammar_of_isFirstMissing hdistinct hindex⟩

end Pattern

/-! ## Conversions -/

section Conversions

variable {p : Pattern} {text : String}

theorem convert_of_error {error : SyntaxError} (h : Pattern.parse text = .error error) :
    convert text = .error (.unreadable error) := by
  rw [convert, h]
  rfl

theorem convert_of_violation (h : Pattern.parse text = .ok p) {v : Violation}
    (hv : p.validate = .error v) : convert text = .error (.invalid v) := by
  unfold convert
  rw [h]
  show (p.validate.mapError _ >>= fun _ => _) = _
  rw [hv]
  rfl

theorem convert_of_valid (h : Pattern.parse text = .ok p) (hvalid : p.validate = .ok ()) :
    ∃ g, p.grammar = .ok g ∧ convert text = .ok g := by
  obtain ⟨g, hg⟩ := Pattern.exists_grammar_of_validate (Pattern.captures_nodup_of_parse h) hvalid
  refine ⟨g, hg, ?_⟩
  unfold convert
  rw [h]
  show (p.validate.mapError _ >>= fun _ => p.grammar.mapError _) = _
  rw [hvalid, hg]
  rfl

/-- Everything that can become of a text. The last step has no error of its own to add. -/
theorem convert_cases (text : String) :
    (∃ error, Pattern.parse text = .error error ∧ convert text = .error (.unreadable error))
      ∨ (∃ p v, Pattern.parse text = .ok p ∧ p.validate = .error v
        ∧ convert text = .error (.invalid v))
      ∨ ∃ p g, Pattern.parse text = .ok p ∧ p.validate = .ok () ∧ p.grammar = .ok g
        ∧ convert text = .ok g := by
  cases hparse : Pattern.parse text with
  | error error => exact .inl ⟨error, rfl, convert_of_error hparse⟩
  | ok p =>
      cases hvalidate : p.validate with
      | error v =>
          exact .inr (.inl ⟨p, v, rfl, hvalidate, convert_of_violation hparse hvalidate⟩)
      | ok _ =>
          obtain ⟨g, hg, hconvert⟩ := convert_of_valid hparse hvalidate
          exact .inr (.inr ⟨p, g, rfl, hvalidate, hg, hconvert⟩)

theorem convert_ne_unbuildable (text : String) (error : BuildError) :
    convert text ≠ .error (.unbuildable error) := by
  rcases convert_cases text with ⟨_, -, h⟩ | ⟨_, _, -, -, h⟩ | ⟨_, _, -, -, -, h⟩
  · simp [h]
  · simp [h]
  · simp [h]

theorem convert_eq_ok_iff {g : Grammar} :
    convert text = .ok g
      ↔ ∃ p, Pattern.parse text = .ok p ∧ p.validate = .ok () ∧ p.grammar = .ok g := by
  constructor
  · intro hconvert
    rcases convert_cases text with ⟨_, -, h⟩ | ⟨_, _, -, -, h⟩ | ⟨p, _, hparse, hvalid, hg, h⟩
    · exact nomatch h.symm.trans hconvert
    · exact nomatch h.symm.trans hconvert
    · obtain rfl := Except.ok.inj (h.symm.trans hconvert)
      exact ⟨p, hparse, hvalid, hg⟩
  · rintro ⟨p, hparse, hvalid, hg⟩
    obtain ⟨_, hg', hconvert⟩ := convert_of_valid hparse hvalid
    obtain rfl := Except.ok.inj (hg'.symm.trans hg)
    exact hconvert

end Conversions

/-- What validation says about the grammar of a pattern whose captures have different indices, and
    what follows for texts: their captures have different indices, their conversion does not fail
    in its last step, and it succeeds exactly for what is read and valid. -/
theorem validation_predicts_grammar :
    (∀ p : Pattern, p.captures.Nodup →
      (p.validate = .ok () → ∃ g, p.grammar = .ok g)
        ∧ (∀ index, p.validate = .error (.undeclaredGroup index) →
          p.grammar = .error (.unresolvedLink index))
        ∧ (∀ v, p.validate = .error v →
          (v = .nestedLookahead ∨ ∃ index, v = .captureInLookahead index) →
          (∃ g, p.grammar = .ok g) ∨ ∃ index, p.grammar = .error (.unresolvedLink index)))
      ∧ ∀ text : String,
        (∀ p, Pattern.parse text = .ok p →
          p.captures.Nodup ∧ ∀ index, p.grammar ≠ .error (.duplicateCapture index))
        ∧ (∀ error, convert text ≠ .error (.unbuildable error))
        ∧ ((∃ g, convert text = .ok g)
          ↔ ∃ p, Pattern.parse text = .ok p ∧ p.validate = .ok ()) := by
  constructor
  · intro p hdistinct
    refine ⟨Pattern.exists_grammar_of_validate hdistinct,
      fun index => Pattern.grammar_of_undeclaredGroup hdistinct, ?_⟩
    intro v _ _
    exact Pattern.exists_grammar_or_unresolvedLink hdistinct
  · intro text
    refine ⟨?_, convert_ne_unbuildable text, ?_⟩
    · intro p h
      have hdistinct := Pattern.captures_nodup_of_parse h
      refine ⟨hdistinct, fun index hduplicate => ?_⟩
      rcases Pattern.exists_grammar_or_unresolvedLink hdistinct with ⟨g, hg⟩ | ⟨other, hother⟩
      · exact nomatch hg.symm.trans hduplicate
      · exact nomatch hother.symm.trans hduplicate
    · constructor
      · rintro ⟨g, hconvert⟩
        obtain ⟨p, hparse, hvalid, -⟩ := convert_eq_ok_iff.1 hconvert
        exact ⟨p, hparse, hvalid⟩
      · rintro ⟨p, hparse, hvalid⟩
        obtain ⟨g, -, hconvert⟩ := convert_of_valid hparse hvalid
        exact ⟨g, hconvert⟩

end PatternGrammar
