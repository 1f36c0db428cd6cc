import Mathlib.Data.List.Forall2
import PatternGrammar.Proofs.Printing
import PatternGrammar.Proofs.Reporting

set_option autoImplicit false

/-! # Reports with and without color

Colors are codes between the characters of an output. Two runs of the same steps, one with colors
and one without, are compared step by step: at every moment the lines of the one are those of the
other with codes in them (`Report.IsColored`). So nothing is left of the colors when the codes are
deleted. -/

namespace PatternGrammar

namespace Text

/-! ## Codes -/

/-- A text without the codes in it. No code begins inside another one, so it does not matter in
    which order they are deleted. -/
def deleteCodes : List Char → List Char
  | [] => []
  | '\x1b' :: '[' :: '0' :: '1' :: ';' :: '3' :: '1' :: 'm' :: rest => deleteCodes rest
  | '\x1b' :: '[' :: '0' :: '1' :: ';' :: '3' :: '6' :: 'm' :: rest => deleteCodes rest
  | '\x1b' :: '[' :: 'm' :: rest => deleteCodes rest
  | c :: rest => c :: deleteCodes rest

theorem deleteCodes_cons {c : Char} (hc : '\x1b' ≠ c) (rest : List Char) :
    deleteCodes (c :: rest) = c :: deleteCodes rest := by
  rw [deleteCodes]
  all_goals
    rintro _ rfl
    exact absurd rfl hc

/-- A text is another one with codes in it. Whatever follows, no code begins in the one text and
    ends behind it. -/
def IsColored (colored plain : String) : Prop :=
  ∀ rest, deleteCodes (colored.toList ++ rest) = plain.toList ++ deleteCodes rest

variable {colored colored' plain plain' : String}

theorem IsColored.deleteCodes_eq (h : IsColored colored plain) :
    deleteCodes colored.toList = plain.toList := by
  simpa [deleteCodes] using h []

theorem IsColored.append (h : IsColored colored plain) (h' : IsColored colored' plain') :
    IsColored (colored ++ colored') (plain ++ plain') := by
  intro rest
  rw [String.toList_append, String.toList_append, List.append_assoc, h, h', List.append_assoc]

/-- A text in which no code begins is itself without codes. -/
theorem IsColored.refl {text : String} (h : Avoids '\x1b' text) : IsColored text text := by
  intro rest
  unfold Avoids at h
  generalize text.toList = chars at h
  induction chars with
  | nil => rfl
  | cons c chars ih =>
      rw [List.mem_cons, not_or] at h
      rw [List.cons_append, deleteCodes_cons h.1, ih h.2]
      rfl

theorem Emphasis.isColored_apply (emphasis : Emphasis) {text : String} (h : Avoids '\x1b' text) :
    IsColored (emphasis.apply true text) (emphasis.apply false text) := by
  have hopening : IsColored emphasis.opening "" := by
    intro rest
    cases emphasis <;> rfl
  have hclosing : IsColored closing "" := fun _ => rfl
  have hplain : "" ++ text ++ "" = emphasis.apply false text := by
    rw [String.empty_append, String.append_empty]
    rfl
  rw [← hplain]
  exact (hopening.append (.refl h)).append hclosing

/-! ## Lines -/

theorem IsColored.unlines {lines lines' : List String} (h : List.Forall₂ IsColored lines lines') :
    IsColored (unlines lines) (unlines lines') := by
  induction h with
  | nil => exact fun _ => rfl
  | cons hline hrest ih =>
      rw [unlines_cons, unlines_cons]
      exact (hline.append (.refl (by simp [Avoids]))).append ih

theorem IsColored.intercalate {sep : String} (hsep : Avoids '\x1b' sep)
    {texts texts' : List String} (h : List.Forall₂ IsColored texts texts') :
    IsColored (sep.intercalate texts) (sep.intercalate texts') := by
  induction h with
  | nil => exact fun _ => rfl
  | @cons text text' texts texts' htext hrest ih =>
      cases hrest with
      | nil => simpa using htext
      | cons hnext hmore =>
          rw [String.intercalate_cons_cons, String.intercalate_cons_cons]
          exact (htext.append (.refl hsep)).append ih

end Text

open Text

theorem escape_isControl : IsControl '\x1b' := by
  unfold IsControl
  decide

/-! ## Listings -/

/-- The listing of a grammar has codes only around the heads of its rules. -/
theorem Grammar.isColored_rows {g : Grammar}
    (h : ∀ alternatives ∈ g.rules, ∀ alternative ∈ alternatives, .terminal '\x1b' ∉ alternative) :
    List.Forall₂ IsColored (g.emphasisedRows true) (g.emphasisedRows false) := by
  rw [emphasisedRows, emphasisedRows, rows, rows, List.forall₂_map_left_iff,
    List.forall₂_map_right_iff, List.forall₂_same]
  rintro ⟨name, alternatives⟩ hentry
  have hname := name.avoids_text escape_isControl
  have harrow : Avoids '\x1b' " → " := escape_isControl.avoids rfl
  have htext := avoids_alternativesText escape_isControl (h _ (mem_rules_of_mem_entries hentry))
  exact ((Emphasis.head.isColored_apply hname).append (.refl harrow)).append (.refl htext)

/-! ## Reports -/

namespace Report

/-- A report is another one with codes in its lines. -/
structure IsColored (colored plain : Report) : Prop where
  passed : colored.passed = plain.passed
  lines : List.Forall₂ Text.IsColored colored.lines plain.lines

variable {colored plain : Report} {options : Options} {tree : Pattern} {text : String}

theorem IsColored.output (h : IsColored colored plain) :
    Text.IsColored colored.text plain.text :=
  .unlines h.lines

theorem IsColored.write (h : IsColored colored plain) {lines lines' : List String}
    (hlines : List.Forall₂ Text.IsColored lines lines') :
    IsColored (colored.write lines) (plain.write lines') :=
  ⟨h.passed, List.rel_append h.lines hlines⟩

theorem IsColored.note (h : IsColored colored plain) (entry : String) :
    IsColored (colored.note entry) (plain.note entry) :=
  ⟨h.passed, h.lines⟩

theorem IsColored.fail (h : IsColored colored plain) {message : String}
    (hmessage : Avoids '\x1b' message) :
    IsColored (colored.fail true message) (plain.fail false message) := by
  have hword : Avoids '\x1b' "Error:" := escape_isControl.avoids rfl
  have hlabel := Emphasis.error.isColored_apply hword
  have hblank : Avoids '\x1b' " " := escape_isControl.avoids rfl
  have hline := (hlabel.append (.refl hblank)).append (.refl hmessage)
  exact ⟨rfl, (h.write (.cons hline .nil)).lines⟩

theorem IsColored.addGrammar (h : IsColored colored plain) (htree : .symbol '\x1b' ∉ tree.nodes) :
    IsColored (colored.addGrammar options true text tree)
      (plain.addGrammar options false text tree) := by
  cases hgrammar : tree.grammar with
  | error e =>
      rw [addGrammar_of_error hgrammar, addGrammar_of_error hgrammar]
      exact h.fail (e.avoids_message escape_isControl)
  | ok g =>
      rw [addGrammar_of_ok hgrammar, addGrammar_of_ok hgrammar]
      refine (h.note _).write ?_
      split
      · refine g.isColored_rows fun _ halternatives _ halternative hescape => htree ?_
        exact Pattern.symbol_mem_of_terminal hgrammar halternatives halternative hescape
      · exact .nil

theorem IsColored.addVerdict (h : IsColored colored plain) (htree : .symbol '\x1b' ∉ tree.nodes) :
    IsColored (colored.addVerdict options true text tree)
      (plain.addVerdict options false text tree) := by
  cases hverdict : tree.validate with
  | ok _ =>
      rw [addVerdict_of_valid hverdict, addVerdict_of_valid hverdict]
      have hvalid : Avoids '\x1b' "Regular expression is valid." := escape_isControl.avoids rfl
      exact (h.write (.cons (.refl hvalid) .nil)).addGrammar htree
  | error v =>
      rw [addVerdict_of_violation hverdict, addVerdict_of_violation hverdict]
      have hfailed := h.fail (v.avoids_message escape_isControl)
      split
      · exact hfailed.addGrammar htree
      · exact hfailed

theorem avoids_stripBlanks {x : Char} {pattern : String} (h : Avoids x pattern) :
    Avoids x (stripBlanks pattern) := by
  rw [Avoids, stripBlanks, String.toList_ofList]
  exact fun hmem => h (List.mem_of_mem_filter hmem)

theorem isColored_echo (h : Avoids '\x1b' text) : IsColored (echo text) (echo text) := by
  have hline : Avoids '\x1b' ("Pattern: " ++ text) := (escape_isControl.avoids rfl).append h
  exact ⟨rfl, .cons (.refl hline) .nil⟩

theorem isColored_shown (htext : Avoids '\x1b' text) (htree : .symbol '\x1b' ∉ tree.nodes) :
    IsColored (shown options text tree) (shown options text tree) := by
  refine ((isColored_echo htext).note _).write (List.forall₂_same.2 fun row hrow => .refl ?_)
  split at hrow
  · exact tree.avoids_rows escape_isControl htree row hrow
  · exact nomatch hrow

theorem isColored_ofPattern (options : Options) {pattern : String} (h : Avoids '\x1b' pattern) :
    IsColored (ofPattern options true pattern) (ofPattern options false pattern) := by
  have htext := avoids_stripBlanks h
  cases hparse : Pattern.parse (stripBlanks pattern) with
  | error e =>
      rw [ofPattern_of_error hparse, ofPattern_of_error hparse]
      refine (isColored_echo htext).fail (e.avoids_message escape_isControl fun hquoted => ?_)
      rcases (Pattern.parse_eq_error_iff.1 hparse).mem_of_quoted hquoted with hmem | hparen
      · exact htext hmem
      · exact absurd hparen (by decide)
  | ok tree =>
      rw [ofPattern_of_ok hparse, ofPattern_of_ok hparse]
      have htree := Pattern.symbol_not_mem_of_parse escape_isControl hparse
      exact (isColored_shown htext htree).addVerdict htree

theorem allPassed_color (options : Options) {patterns : List String}
    (h : ∀ pattern ∈ patterns, Avoids '\x1b' pattern) :
    allPassed (patterns.map (ofPattern options true))
      = allPassed (patterns.map (ofPattern options false)) := by
  rw [allPassed, allPassed, List.all_map, List.all_map, Bool.eq_iff_iff, List.all_eq_true,
    List.all_eq_true]
  refine forall₂_congr fun pattern hpattern => ?_
  have hcolored := isColored_ofPattern options (h pattern hpattern)
  rw [Function.comp_apply, Function.comp_apply, hcolored.passed]

theorem isColored_texts (options : Options) {patterns : List String}
    (h : ∀ pattern ∈ patterns, Avoids '\x1b' pattern) :
    Text.IsColored (texts (patterns.map (ofPattern options true)))
      (texts (patterns.map (ofPattern options false))) := by
  refine .intercalate (by simp [Avoids]) ?_
  rw [List.map_map, List.map_map, List.forall₂_map_left_iff, List.forall₂_map_right_iff,
    List.forall₂_same]
  intro pattern hpattern
  rw [Function.comp_apply, Function.comp_apply]
  exact (isColored_ofPattern options (h pattern hpattern)).output

end Report

/-- Colors are nothing but codes. For any patterns in which no code begins, and any options, the
    reports with colors pass exactly if those without do, and without its codes the colored output
    is the plain one. The same holds of the listing of any grammar none of whose terminals begins a
    code, and without color this listing is the plain one for every grammar. -/
theorem colors_are_codes :
    (∀ (options : Options) (patterns : List String),
      (∀ pattern ∈ patterns, '\x1b' ∉ pattern.toList) →
        Report.allPassed (patterns.map (Report.ofPattern options true))
            = Report.allPassed (patterns.map (Report.ofPattern options false))
          ∧ deleteCodes (Report.texts (patterns.map (Report.ofPattern options true))).toList
            = (Report.texts (patterns.map (Report.ofPattern options false))).toList)
      ∧ ∀ g : Grammar, g.emphasisedText false = g.text
        ∧ ((∀ alternatives ∈ g.rules, ∀ alternative ∈ alternatives,
            .terminal '\x1b' ∉ alternative) →
          deleteCodes (g.emphasisedText true).toList = g.text.toList) := by
  refine ⟨fun options patterns h => ⟨?_, ?_⟩, fun g => ⟨rfl, fun h => ?_⟩⟩
  · exact Report.allPassed_color options h
  · exact (Report.isColored_texts options h).deleteCodes_eq
  · exact (Text.IsColored.unlines (g.isColored_rows h)).deleteCodes_eq

theorem colors_are_codes_unread :
    deleteCodes (Report.texts ([")", "a|b"].map (Report.ofPattern {} true))).toList
      = (Report.texts ([")", "a|b"].map (Report.ofPattern {} false))).toList := by
  have hplain : ∀ pattern ∈ [")", "a|b"], '\x1b' ∉ pattern.toList := by decide
  exact (colors_are_codes.1 {} [")", "a|b"] hplain).2

end PatternGrammar
