import Mathlib
import PatternGrammar.Proofs.Agreement
import PatternGrammar.Report

set_option autoImplicit false

/-! # Reports and conversions

A report goes through the steps of a conversion one by one and shows the outcome of each. It agrees
with the conversion as a whole (`Report.report_agrees`): a pattern passes exactly if its text can be
converted, and what is written follows from the conversion, the tree and the options. -/

namespace PatternGrammar

namespace Report

variable {options : Options} {color : Bool} {pattern text : String} {tree : Pattern} {r : Report}

/-! ## The steps of a report -/

/-- The report on a text of which nothing is known yet. -/
def echo (text : String) : Report :=
  ⟨true, ["Pattern: " ++ text], []⟩

/-- The report on a text that was read as `tree`. -/
def shown (options : Options) (text : String) (tree : Pattern) : Report :=
  ((echo text).note s!"parsed \"{text}\" with {tree.captureCount} capture group(s)").write
    (if options.showTree then tree.rows else [])

theorem ofPattern_of_error {e : SyntaxError} (h : Pattern.parse (stripBlanks pattern) = .error e) :
    ofPattern options color pattern = (echo (stripBlanks pattern)).fail color e.message := by
  rw [ofPattern, h]
  rfl

theorem ofPattern_of_ok (h : Pattern.parse (stripBlanks pattern) = .ok tree) :
    ofPattern options color pattern = (shown options (stripBlanks pattern) tree).addVerdict options
      color (stripBlanks pattern) tree := by
  rw [ofPattern, h]
  rfl

theorem addVerdict_of_valid (h : tree.validate = .ok ()) :
    r.addVerdict options color text tree
      = (r.write ["Regular expression is valid."]).addGrammar options color text tree := by
  rw [addVerdict, h]

theorem addVerdict_of_violation {v : Violation} (h : tree.validate = .error v) :
    r.addVerdict options color text tree
      = if options.force then (r.fail color v.message).addGrammar options color text tree
        else r.fail color v.message := by
  rw [addVerdict, h]

theorem addGrammar_of_ok {g : Grammar} (h : tree.grammar = .ok g) :
    r.addGrammar options color text tree
      = (r.note s!"compiled \"{text}\" into {g.size} rule(s)").write
        (if options.showGrammar then g.emphasisedRows color else []) := by
  rw [addGrammar, h]

theorem addGrammar_of_error {e : BuildError} (h : tree.grammar = .error e) :
    r.addGrammar options color text tree = r.fail color e.message := by
  rw [addGrammar, h]

/-! ## Which patterns pass -/

/-- Going on to the grammar does not make up for a step that failed. -/
theorem passed_addGrammar (h : r.passed = false) :
    (r.addGrammar options color text tree).passed = false := by
  cases hgrammar : tree.grammar with
  | ok g =>
      rw [addGrammar_of_ok hgrammar]
      exact h
  | error e =>
      rw [addGrammar_of_error hgrammar]
      rfl

theorem passed_ofPattern_iff :
    (ofPattern options color pattern).passed ↔ ∃ g, convert (stripBlanks pattern) = .ok g := by
  rcases convert_cases (stripBlanks pattern) with
    ⟨e, hparse, hconvert⟩ | ⟨tree, v, hparse, hinvalid, hconvert⟩
      | ⟨tree, g, hparse, hvalid, hgrammar, hconvert⟩
  · rw [ofPattern_of_error hparse, hconvert]
    exact iff_of_false nofun nofun
  · have hfailed : (ofPattern options color pattern).passed = false := by
      rw [ofPattern_of_ok hparse, addVerdict_of_violation hinvalid]
      split
      · exact passed_addGrammar rfl
      · rfl
    rw [hfailed, hconvert]
    exact iff_of_false nofun nofun
  · rw [ofPattern_of_ok hparse, addVerdict_of_valid hvalid, addGrammar_of_ok hgrammar, hconvert]
    exact iff_of_true rfl ⟨g, rfl⟩

theorem allPassed_iff {patterns : List String} :
    allPassed (patterns.map (ofPattern options color))
      ↔ ∀ p ∈ patterns, ∃ g, convert (stripBlanks p) = .ok g := by
  rw [allPassed, List.all_map, List.all_eq_true]
  exact forall₂_congr fun _ _ => passed_ofPattern_iff

theorem failed_of_convert {error : ConversionError}
    (h : convert (stripBlanks pattern) = .error error) :
    (ofPattern options color pattern).passed = false := by
  rw [Bool.eq_false_iff, Ne, passed_ofPattern_iff, h]
  exact nofun

/-! ## What is written without color -/

theorem text_write (r : Report) (lines : List String) :
    (r.write lines).text = r.text ++ Text.unlines lines :=
  Text.unlines_append ..

theorem text_fail (r : Report) (message : String) :
    (r.fail false message).text = r.text ++ "Error: " ++ message ++ "\n" := by
  have hwrite : (r.fail false message).text = r.text ++ Text.unlines ["Error: " ++ message] :=
    text_write r _
  rw [hwrite, Text.unlines_cons]
  simp [Text.unlines, String.append_assoc]

/-- The only error that a conversion does not show before this step. -/
theorem text_fail_unresolvedLink (r : Report) (index : Nat) :
    (r.fail false (BuildError.unresolvedLink index).message).text
      = r.text ++ "Error: unresolved group link " ++ toString index ++ "\n" := by
  have hline : "Error: " ++ (BuildError.unresolvedLink index).message
      = "Error: unresolved group link " ++ toString index := by
    have hmessage : (BuildError.unresolvedLink index).message
        = "unresolved group link " ++ toString index := rfl
    rw [hmessage, ← String.append_assoc]
    rfl
  rw [text_fail, @String.append_assoc r.text, hline, ← String.append_assoc]

theorem text_shown (options : Options) (text : String) (tree : Pattern) :
    (shown options text tree).text
      = "Pattern: " ++ text ++ "\n" ++ if options.showTree then tree.drawing else "" := by
  have hecho : (echo text).text = "Pattern: " ++ text ++ "\n" := by
    simp [Report.text, echo, Text.unlines]
  rw [shown, text_write, ← hecho]
  congr 1
  split <;> rfl

theorem text_addGrammar {g : Grammar} (h : tree.grammar = .ok g) :
    (r.addGrammar options false text tree).text
      = r.text ++ if options.showGrammar then g.text else "" := by
  rw [addGrammar_of_ok h, text_write]
  congr 1
  split <;> rfl

/-- What is written without color of a pattern with the given `text`, and whether the pattern
    passes, according to the conversion of the text. -/
inductive Says (options : Options) (text : String) :
    Except ConversionError Grammar → String → Bool → Prop where
  | unreadable (e : SyntaxError) :
      Says options text (.error (.unreadable e))
        ("Pattern: " ++ text ++ "\n" ++ "Error: " ++ e.message ++ "\n") false
  | valid (tree : Pattern) (g : Grammar) (hparse : Pattern.parse text = .ok tree) :
      Says options text (.ok g)
        ("Pattern: " ++ text ++ "\n" ++ (if options.showTree then tree.drawing else "")
          ++ "Regular expression is valid.\n" ++ (if options.showGrammar then g.text else "")) true
  | invalid (tree : Pattern) (v : Violation) (hparse : Pattern.parse text = .ok tree)
      (hforce : options.force = false) :
      Says options text (.error (.invalid v))
        ("Pattern: " ++ text ++ "\n" ++ (if options.showTree then tree.drawing else "")
          ++ "Error: " ++ v.message ++ "\n") false
  | forced (tree : Pattern) (v : Violation) (g : Grammar) (hparse : Pattern.parse text = .ok tree)
      (hforce : options.force = true) (hgrammar : tree.grammar = .ok g) :
      Says options text (.error (.invalid v))
        ("Pattern: " ++ text ++ "\n" ++ (if options.showTree then tree.drawing else "")
          ++ "Error: " ++ v.message ++ "\n" ++ (if options.showGrammar then g.text else "")) false
  | unresolved (tree : Pattern) (v : Violation) (index : Nat)
      (hparse : Pattern.parse text = .ok tree) (hforce : options.force = true)
      (hgrammar : tree.grammar = .error (.unresolvedLink index)) :
      Says options text (.error (.invalid v))
        ("Pattern: " ++ text ++ "\n" ++ (if options.showTree then tree.drawing else "")
          ++ "Error: " ++ v.message ++ "\n"
          ++ "Error: unresolved group link " ++ toString index ++ "\n") false

theorem says_of_invalid {v : Violation} (hparse : Pattern.parse (stripBlanks pattern) = .ok tree)
    (hinvalid : tree.validate = .error v) :
    Says options (stripBlanks pattern) (.error (.invalid v))
      (ofPattern options false pattern).text false := by
  rw [ofPattern_of_ok hparse, addVerdict_of_violation hinvalid]
  cases hforce : options.force with
  | false =>
      rw [if_neg (by decide), text_fail, text_shown]
      exact .invalid tree v hparse hforce
  | true =>
      rw [if_pos rfl]
      have hdistinct := Pattern.captures_nodup_of_parse hparse
      rcases Pattern.exists_grammar_or_unresolvedLink hdistinct with ⟨g, hg⟩ | ⟨index, hindex⟩
      · rw [text_addGrammar hg, text_fail, text_shown]
        exact .forced tree v g hparse hforce hg
      · rw [addGrammar_of_error hindex, text_fail_unresolvedLink, text_fail, text_shown]
        exact .unresolved tree v index hparse hforce hindex

theorem says_stripBlanks (options : Options) (pattern : String) :
    Says options (stripBlanks pattern) (convert (stripBlanks pattern))
      (ofPattern options false pattern).text (ofPattern options false pattern).passed := by
  rcases convert_cases (stripBlanks pattern) with
    ⟨e, hparse, hconvert⟩ | ⟨tree, v, hparse, hinvalid, hconvert⟩
      | ⟨tree, g, hparse, hvalid, hgrammar, hconvert⟩
  · rw [failed_of_convert hconvert, hconvert, ofPattern_of_error hparse, text_fail]
    exact .unreadable e
  · rw [failed_of_convert hconvert, hconvert]
    exact says_of_invalid hparse hinvalid
  · rw [passed_ofPattern_iff.2 ⟨g, hconvert⟩, hconvert, ofPattern_of_ok hparse,
      addVerdict_of_valid hvalid, text_addGrammar hgrammar, text_write, text_shown]
    exact .valid tree g hparse

/-- A report says what the conversion of `q` says, the text of its pattern without the blanks. -/
theorem report_agrees (options : Options) (pattern : String) {q : String}
    (hq : q.toList = pattern.toList.filter (· ≠ ' ')) :
    Says options q (convert q) (ofPattern options false pattern).text
      (ofPattern options false pattern).passed := by
  obtain rfl := eq_stripBlanks_iff.2 hq
  exact says_stripBlanks options pattern

/-- The blanks of `(? 1) b` are left out. A link to a group that is not there is an error of both
    steps. -/
theorem report_agrees_forced :
    let options : Options := { showTree := false, force := true }
    "(?1)b".toList = "(? 1) b".toList.filter (· ≠ ' ')
      ∧ (ofPattern options false "(? 1) b").text
        = "Pattern: (?1)b\n" ++ "Error: reference to undeclared group 1\n"
          ++ "Error: unresolved group link 1\n"
      ∧ (ofPattern options false "(? 1) b").passed = false := by
  intro options
  have hq : "(?1)b".toList = "(? 1) b".toList.filter (· ≠ ' ') := by decide
  have hconvert : convert "(?1)b" = .error (.invalid (.undeclaredGroup 1)) := by cbv
  have htree : Pattern.parse "(?1)b" = .ok (.concat (.link 1) (.symbol 'b')) := by cbv
  have hsays := report_agrees options "(? 1) b" hq
  rw [hconvert] at hsays
  generalize (ofPattern options false "(? 1) b").text = text,
    (ofPattern options false "(? 1) b").passed = passed at hsays
  refine ⟨hq, ?_⟩
  cases hsays with
  | invalid tree v hparse hforce => cases hforce
  | forced tree v g hparse hforce hgrammar =>
      obtain rfl := Except.ok.inj (htree.symm.trans hparse)
      cases hgrammar
  | unresolved tree v index hparse hforce hgrammar =>
      obtain rfl := Except.ok.inj (htree.symm.trans hparse)
      obtain rfl := BuildError.unresolvedLink.inj (Except.error.inj hgrammar)
      exact ⟨by decide, rfl⟩

end Report

end PatternGrammar
