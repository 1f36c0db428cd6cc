import PatternGrammar.Proofs.Coloring
import PatternGrammar.Proofs.Layout

set_option autoImplicit false

/-! # Several reports in one output

No report holds an empty line: whatever a step writes, colors and raw characters of the pattern
included, has no line feed inside and something on every line. So the empty lines of an output are
the ones between the reports, and each report can be found in it again (`report_blocks`). -/

namespace PatternGrammar

open Text

/-! ## Solid lines -/

namespace Text

variable {first second line : String}

theorem append_ne_empty (h : first ≠ "") : first ++ second ≠ "" :=
  fun hempty => h (String.append_eq_empty_iff.1 hempty).1

theorem IsSolid.append (h : IsSolid first) (hsecond : Avoids '\n' second) :
    IsSolid (first ++ second) where
  nonempty := append_ne_empty h.nonempty
  unbroken := Avoids.append h.unbroken hsecond

theorem IsSolid.append_left (h : IsSolid second) (hfirst : Avoids '\n' first) :
    IsSolid (first ++ second) where
  nonempty hempty := h.nonempty (String.append_eq_empty_iff.1 hempty).2
  unbroken := Avoids.append hfirst h.unbroken

theorem isSolid_of_printable (hsome : line ≠ "") (h : line.toList.all (32 ≤ ·.toNat)) :
    IsSolid line :=
  ⟨hsome, lineFeed_isControl.avoids h⟩

theorem IsSolid.apply (h : IsSolid line) (emphasis : Emphasis) (color : Bool) :
    IsSolid (emphasis.apply color line) := by
  have hopening : Avoids '\n' emphasis.opening := by
    unfold Avoids
    cases emphasis <;> decide
  have hclosing : Avoids '\n' Emphasis.closing := by
    unfold Avoids
    decide
  cases color with
  | false => exact h
  | true => exact (h.append_left hopening).append hclosing

end Text

theorem Pattern.label_ne_empty (p : Pattern) : p.label ≠ "" := by
  cases p with
  | symbol c => exact append_ne_empty (by decide)
  | capture body index | link index => exact append_ne_empty (append_ne_empty (by decide))
  | star body => exact (by decide : "Iterat:" ≠ "")
  | group body => exact (by decide : "NoCapture:" ≠ "")
  | concat left right => exact (by decide : "Concat:" ≠ "")
  | alt left right => exact (by decide : "Alternat:" ≠ "")
  | lookahead body => exact (by decide : "LookAhead:" ≠ "")

theorem Pattern.isSolid_rows {p : Pattern} (h : symbol '\n' ∉ p.nodes) :
    ∀ row ∈ p.rows, IsSolid row := by
  intro row hrow
  refine ⟨?_, p.avoids_rows lineFeed_isControl h row hrow⟩
  obtain ⟨lasts, node, -, rfl⟩ := exists_of_mem_rows hrow
  exact fun hempty => node.label_ne_empty (String.append_eq_empty_iff.1 hempty).2

theorem Grammar.isSolid_emphasisedRows {g : Grammar} (color : Bool)
    (h : ∀ alternatives ∈ g.rules, ∀ alternative ∈ alternatives, .terminal '\n' ∉ alternative) :
    ∀ row ∈ g.emphasisedRows color, IsSolid row := by
  have hhead : ∀ name : NonTerminal, IsSolid (Emphasis.head.apply color name.text) := by
    intro name
    have hname : IsSolid name.text :=
      ⟨append_ne_empty (by decide), name.avoids_text lineFeed_isControl⟩
    exact hname.apply .head color
  intro row hrow
  refine ⟨?_, avoids_rows lineFeed_isControl (fun name => (hhead name).unbroken) h row hrow⟩
  obtain ⟨⟨name, alternatives⟩, -, rfl⟩ := List.mem_map.1 hrow
  exact append_ne_empty (append_ne_empty (hhead name).nonempty)

/-! ## The lines of a report -/

namespace Report

/-- A report in which something is written on every line. -/
structure IsLaidOut (r : Report) : Prop where
  written : r.lines ≠ []
  solid : ∀ line ∈ r.lines, IsSolid line

variable {r : Report} {options : Options} {color : Bool} {tree : Pattern} {text : String}

theorem IsLaidOut.isBlock_text (h : IsLaidOut r) : IsBlock r.text :=
  isBlock_unlines h.written h.solid

theorem IsLaidOut.write (h : IsLaidOut r) {lines : List String}
    (hlines : ∀ line ∈ lines, IsSolid line) : IsLaidOut (r.write lines) where
  written := List.append_ne_nil_of_left_ne_nil h.written lines
  solid := List.forall_mem_append.2 ⟨h.solid, hlines⟩

theorem IsLaidOut.note (h : IsLaidOut r) (entry : String) : IsLaidOut (r.note entry) :=
  ⟨h.written, h.solid⟩

theorem IsLaidOut.fail (h : IsLaidOut r) {message : String} (hmessage : Avoids '\n' message) :
    IsLaidOut (r.fail color message) := by
  have hword : IsSolid "Error:" := isSolid_of_printable (by decide) rfl
  have hblank : Avoids '\n' " " := lineFeed_isControl.avoids rfl
  have hline := ((hword.apply .error color).append hblank).append hmessage
  have hwrite := h.write (List.forall_mem_singleton.2 hline)
  exact ⟨hwrite.written, hwrite.solid⟩

theorem IsLaidOut.addGrammar (h : IsLaidOut r) (htree : .symbol '\n' ∉ tree.nodes) :
    IsLaidOut (r.addGrammar options color text tree) := by
  cases hgrammar : tree.grammar with
  | error e =>
      rw [addGrammar_of_error hgrammar]
      exact h.fail (e.avoids_message lineFeed_isControl)
  | ok g =>
      rw [addGrammar_of_ok hgrammar]
      refine (h.note _).write ?_
      split
      · refine g.isSolid_emphasisedRows color fun _ halternatives _ halternative hfeed => htree ?_
        exact Pattern.symbol_mem_of_terminal hgrammar halternatives halternative hfeed
      · exact nofun

theorem IsLaidOut.addVerdict (h : IsLaidOut r) (htree : .symbol '\n' ∉ tree.nodes) :
    IsLaidOut (r.addVerdict options color text tree) := by
  cases hverdict : tree.validate with
  | ok _ =>
      rw [addVerdict_of_valid hverdict]
      have hvalid : IsSolid "Regular expression is valid." :=
        isSolid_of_printable (by decide) rfl
      exact (h.write (List.forall_mem_singleton.2 hvalid)).addGrammar htree
  | error v =>
      rw [addVerdict_of_violation hverdict]
      have hfailed : IsLaidOut (r.fail color v.message) :=
        h.fail (v.avoids_message lineFeed_isControl)
      split
      · exact hfailed.addGrammar htree
      · exact hfailed

theorem isLaidOut_echo (h : Avoids '\n' text) : IsLaidOut (echo text) where
  written := List.cons_ne_nil _ _
  solid := List.forall_mem_singleton.2 ((isSolid_of_printable (by decide) rfl).append h)

theorem isLaidOut_shown (htext : Avoids '\n' text) (htree : .symbol '\n' ∉ tree.nodes) :
    IsLaidOut (shown options text tree) := by
  refine ((isLaidOut_echo htext).note _).write ?_
  split
  · exact tree.isSolid_rows htree
  · exact nofun

/-- What is written on a pattern has no line feeds but those that end lines, even if the pattern
    cannot be read: what an error quotes of it is one of its characters. -/
theorem isLaidOut_ofPattern (options : Options) (color : Bool) {pattern : String}
    (h : Avoids '\n' pattern) : IsLaidOut (ofPattern options color pattern) := by
  have htext := avoids_stripBlanks h
  cases hparse : Pattern.parse (stripBlanks pattern) with
  | error e =>
      rw [ofPattern_of_error hparse]
      refine (isLaidOut_echo htext).fail (e.avoids_message lineFeed_isControl fun hquoted => ?_)
      rcases (Pattern.parse_eq_error_iff.1 hparse).mem_of_quoted hquoted with hmem | hparen
      · exact htext hmem
      · exact absurd hparen (by decide)
  | ok tree =>
      rw [ofPattern_of_ok hparse]
      have htree := Pattern.symbol_not_mem_of_parse lineFeed_isControl hparse
      exact (isLaidOut_shown htext htree).addVerdict htree

/-- The output for several patterns consists of the texts of their reports, in their order and with
    an empty line between any two of them. None of these texts is empty or holds an empty line, so
    they are the blocks of the output. A pattern that fails keeps no other one from being reported
    on, and all patterns pass exactly if each of them does. -/
theorem report_blocks (options : Options) (color : Bool) {patterns : List String}
    (h : ∀ pattern ∈ patterns, '\n' ∉ pattern.toList) :
    texts (patterns.map (ofPattern options color))
        = "\n".intercalate (patterns.map fun pattern => (ofPattern options color pattern).text)
      ∧ (∀ pattern ∈ patterns, IsBlock (ofPattern options color pattern).text)
      ∧ splitBlocks (texts (patterns.map (ofPattern options color)))
        = patterns.map (fun pattern => (ofPattern options color pattern).text)
      ∧ (allPassed (patterns.map (ofPattern options color))
        ↔ ∀ pattern ∈ patterns, (ofPattern options color pattern).passed) := by
  have htexts : texts (patterns.map (ofPattern options color))
      = "\n".intercalate (patterns.map fun pattern => (ofPattern options color pattern).text) := by
    rw [texts, List.map_map, Function.comp_def]
  have hblocks : ∀ pattern ∈ patterns, IsBlock (ofPattern options color pattern).text :=
    fun pattern hpattern => (isLaidOut_ofPattern options color (h pattern hpattern)).isBlock_text
  refine ⟨htexts, hblocks, ?_, ?_⟩
  · rw [htexts, splitBlocks_intercalate (List.forall_mem_map.2 hblocks)]
  · rw [allPassed, List.all_map, List.all_eq_true]
    simp only [Function.comp_apply]

/-- A pattern that passes, one that fails in the last step and one that cannot be read. -/
theorem report_blocks_failing :
    splitBlocks (texts (["a|b", "(?4)", ")"].map (ofPattern { force := true } true)))
      = ["a|b", "(?4)", ")"].map fun pattern =>
        (ofPattern { force := true } true pattern).text := by
  have hplain : ∀ pattern ∈ ["a|b", "(?4)", ")"], '\n' ∉ pattern.toList := by decide
  exact (report_blocks { force := true } true hplain).2.2.1

end Report

end PatternGrammar
