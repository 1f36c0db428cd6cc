import PatternGrammar.Program
import PatternGrammar.Proofs.Arguments
import PatternGrammar.Proofs.Reporting
import PatternGrammar.Proofs.Segments

set_option autoImplicit false

/-! # Runs of the program

A run is refused, or it processes the patterns among its arguments or else those on its input. Its
status says which of the two happened and whether all patterns could be converted (`run_status`),
unless its output cannot be written. Where the patterns come from makes no difference
(`run_arguments_eq_run_lines`). -/

namespace PatternGrammar

variable {arguments arguments' patterns : List String} {input : ByteArray} {terminal : Bool}
variable {o o' : Options} {pattern ending text : String}

/-! ## What is processed -/

/-- A run ends before it processes any pattern. -/
inductive Refused (arguments : List String) (input : ByteArray) : Prop
  | arguments {e : UsageError} (h : Options.parse arguments = .error e)
  | input {o : Options} (h : Options.parse arguments = .ok o) (hnone : o.patterns = [])
      (hinput : ¬ input.IsValidUTF8)

/-- The patterns that a run with the options `o` processes: the ones among its arguments, or else
    the segments of its input that hold some character that is not blank. -/
inductive Processes (o : Options) (input : ByteArray) : List String → Prop
  | arguments (hsome : o.patterns ≠ []) : Processes o input o.patterns
  | input {text : String} (hnone : o.patterns = []) (hinput : input = text.toUTF8) :
      Processes o input (((segments text.toList).filter fun segment =>
        segment.any (! Text.isBlankChar ·)).map String.ofList)

theorem Processes.of_patterns (hpatterns : o.patterns = patterns) (hsome : patterns ≠ []) :
    Processes o input patterns := by
  subst hpatterns
  exact .arguments hsome

theorem Processes.congr (h : Processes o input patterns) (hpatterns : o.patterns = o'.patterns) :
    Processes o' input patterns := by
  cases h with
  | arguments hsome => exact .of_patterns hpatterns.symm hsome
  | input hnone hinput => exact .input (hpatterns ▸ hnone) hinput

theorem Refused.congr (h : Options.parse arguments = .ok o)
    (h' : Options.parse arguments' = .ok o') (hpatterns : o.patterns = o'.patterns)
    (hrefused : Refused arguments input) : Refused arguments' input := by
  cases hrefused with
  | arguments herror => exact nomatch herror.symm.trans h
  | input hparse hnone hinput =>
      obtain rfl := Except.ok.inj (hparse.symm.trans h)
      exact .input h' (hpatterns ▸ hnone) hinput

theorem refused_or_processes (arguments : List String) (input : ByteArray) :
    Refused arguments input
      ∨ ∃ o patterns, Options.parse arguments = .ok o ∧ Processes o input patterns := by
  cases h : Options.parse arguments with
  | error e => exact .inl (.arguments h)
  | ok o =>
      by_cases hnone : o.patterns = []
      · by_cases hinput : input.IsValidUTF8
        · have htext : input = String.toUTF8 ⟨input, hinput⟩ := rfl
          exact .inr ⟨o, _, rfl, .input hnone htext⟩
        · exact .inl (.input h hnone hinput)
      · exact .inr ⟨o, _, rfl, .arguments hnone⟩

theorem run_of_refused (h : Refused arguments input) :
    ∃ errors, run arguments input terminal = ⟨2, "", errors⟩ := by
  unfold run
  cases h with
  | arguments h =>
      rw [h]
      exact ⟨_, rfl⟩
  | input h hnone hinput =>
      rw [h, readPatterns_of_not_isValidUTF8 hinput]
      exact ⟨_, if_pos (List.isEmpty_iff.2 hnone)⟩

theorem run_of_processes (h : Options.parse arguments = .ok o)
    (hprocesses : Processes o input patterns) :
    run arguments input terminal = runOn o terminal patterns := by
  unfold run
  rw [h]
  cases hprocesses with
  | arguments hsome => exact if_neg fun hempty => hsome (List.isEmpty_iff.1 hempty)
  | input hnone hinput =>
      rw [hinput, readPatterns_toUTF8, patternLines_eq]
      exact if_pos (List.isEmpty_iff.2 hnone)

/-! ## How a run ends -/

/-- Every pattern counts: one that fails is not made up for by another one or by an option. -/
theorem status_runOn (o : Options) (terminal : Bool) (patterns : List String) :
    (∀ p ∈ patterns, ∃ g, convert (Report.stripBlanks p) = .ok g)
        ∧ (runOn o terminal patterns).status = 0
      ∨ (∃ p ∈ patterns, ∃ e, convert (Report.stripBlanks p) = .error e)
        ∧ (runOn o terminal patterns).status = 1 := by
  by_cases hall : ∀ p ∈ patterns, ∃ g, convert (Report.stripBlanks p) = .ok g
  · exact .inl ⟨hall, if_pos (Report.allPassed_iff.2 hall)⟩
  · refine .inr ⟨?_, if_neg fun hpassed => hall (Report.allPassed_iff.1 hpassed)⟩
    push Not at hall
    obtain ⟨p, hp, hfails⟩ := hall
    cases hconvert : convert (Report.stripBlanks p) with
    | error e => exact ⟨p, hp, e, hconvert⟩
    | ok g => exact absurd hconvert (hfails g)

theorem not_all_of_exists (h : ∃ p ∈ patterns, ∃ e, convert (Report.stripBlanks p) = .error e) :
    ¬ ∀ p ∈ patterns, ∃ g, convert (Report.stripBlanks p) = .ok g := by
  intro hall
  obtain ⟨p, hp, e, he⟩ := h
  obtain ⟨g, hg⟩ := hall p hp
  exact nomatch he.symm.trans hg

theorem status_runOn_eq_zero_iff :
    (runOn o terminal patterns).status = 0
      ↔ ∀ p ∈ patterns, ∃ g, convert (Report.stripBlanks p) = .ok g := by
  rcases status_runOn o terminal patterns with ⟨hall, h⟩ | ⟨hfails, h⟩ <;> rw [h]
  · exact iff_of_true rfl hall
  · exact iff_of_false (by decide) (not_all_of_exists hfails)

theorem status_runOn_eq_one_iff :
    (runOn o terminal patterns).status = 1
      ↔ ∃ p ∈ patterns, ∃ e, convert (Report.stripBlanks p) = .error e := by
  rcases status_runOn o terminal patterns with ⟨hall, h⟩ | ⟨hfails, h⟩ <;> rw [h]
  · exact iff_of_false (by decide) fun hfails => not_all_of_exists hfails hall
  · exact iff_of_true rfl hfails

theorem status_runOn_ne_two : (runOn o terminal patterns).status ≠ 2 := by
  rcases status_runOn o terminal patterns with ⟨-, h⟩ | ⟨-, h⟩ <;> rw [h] <;> decide

/-- Of the options, only the patterns matter for the status. -/
theorem status_runOn_congr (o o' : Options) (terminal terminal' : Bool) (patterns : List String) :
    (runOn o terminal patterns).status = (runOn o' terminal' patterns).status := by
  rcases status_runOn o terminal patterns with ⟨hall, h⟩ | ⟨hfails, h⟩
  · rw [h, status_runOn_eq_zero_iff.2 hall]
  · rw [h, status_runOn_eq_one_iff.2 hfails]

theorem errors_runOn (h : o.verbose = false) : (runOn o terminal patterns).errors = "" := by
  unfold runOn
  rw [h]
  rfl

theorem status_run_eq_two_iff :
    (run arguments input terminal).status = 2 ↔ Refused arguments input := by
  constructor
  · intro hstatus
    rcases refused_or_processes arguments input with hrefused | ⟨o, patterns, h, hprocesses⟩
    · exact hrefused
    · rw [run_of_processes h hprocesses] at hstatus
      exact absurd hstatus status_runOn_ne_two
  · intro hrefused
    obtain ⟨errors, hrun⟩ := run_of_refused hrefused
    rw [hrun]

theorem status_run_congr {terminal' : Bool} (h : Options.parse arguments = .ok o)
    (h' : Options.parse arguments' = .ok o') (hpatterns : o.patterns = o'.patterns) :
    (run arguments input terminal).status = (run arguments' input terminal').status := by
  -- Either both runs are refused, or both process the same patterns.
  rcases refused_or_processes arguments input with hrefused | ⟨o₁, patterns, h₁, hprocesses⟩
  · have hrefused' := hrefused.congr h h' hpatterns
    rw [status_run_eq_two_iff.2 hrefused, status_run_eq_two_iff.2 hrefused']
  · obtain rfl := Except.ok.inj (h₁.symm.trans h)
    rw [run_of_processes h hprocesses, run_of_processes h' (hprocesses.congr hpatterns)]
    exact status_runOn_congr ..

theorem exitStatus_eq_two_iff {outcome : Outcome} {written : Bool} :
    outcome.exitStatus written = 2 ↔ outcome.status = 2 ∨ written = false := by
  cases written
  · exact iff_of_true rfl (.inr rfl)
  · exact (or_iff_left nofun).symm

theorem exitStatus_eq_iff {outcome : Outcome} {written : Bool} {status : UInt32}
    (hstatus : status ≠ 2) :
    outcome.exitStatus written = status ↔ written = true ∧ outcome.status = status := by
  cases written
  · exact iff_of_false (Ne.symm hstatus) nofun
  · exact (and_iff_right rfl).symm

/-- The status of a run says what happened, where `written` tells whether its output could be
    written. It is `2` exactly if the arguments or the input were refused, and then there is no
    output, or if the output was not written. Otherwise there are patterns to process, the ones
    among the arguments or the segments of the input that are not blank, and the status is `0` if
    each of them can be converted without its blanks, and `1` if one cannot. So of all that the
    arguments ask for, only the patterns matter for the status. Without an option for it, a run that
    does not end with `2` logs nothing. -/
theorem run_status (arguments : List String) (input : ByteArray) (terminal written : Bool) :
    ((run arguments input terminal).exitStatus written = 2
        ↔ Refused arguments input ∨ written = false)
      ∧ (Refused arguments input → (run arguments input terminal).output = "")
      ∧ (¬ Refused arguments input →
        ∃ o patterns, Options.parse arguments = .ok o ∧ Processes o input patterns)
      ∧ (∀ o patterns, Options.parse arguments = .ok o → Processes o input patterns →
        ((run arguments input terminal).exitStatus written = 0 ↔ written = true
          ∧ ∀ p ∈ patterns, ∃ g, convert (String.ofList (p.toList.filter (· ≠ ' '))) = .ok g)
        ∧ ((run arguments input terminal).exitStatus written = 1 ↔ written = true
          ∧ ∃ p ∈ patterns, ∃ e, convert (String.ofList (p.toList.filter (· ≠ ' '))) = .error e))
      ∧ (∀ arguments' terminal' o o', Options.parse arguments = .ok o →
        Options.parse arguments' = .ok o' → o.patterns = o'.patterns →
          (run arguments input terminal).exitStatus written
            = (run arguments' input terminal').exitStatus written)
      ∧ ("-v" ∉ optionArguments arguments → "--verbose" ∉ optionArguments arguments →
        (run arguments input terminal).exitStatus written ≠ 2 →
          (run arguments input terminal).errors = "") := by
  have hprocesses (h : ¬ Refused arguments input) :=
    (refused_or_processes arguments input).resolve_left h
  refine ⟨?refused, fun hrefused => ?output, hprocesses, fun o patterns h hpatterns => ?patterns,
    fun arguments' terminal' o o' h h' hpatterns => ?congr, fun hshort hlong hstatus => ?errors⟩
  case refused => exact exitStatus_eq_two_iff.trans (or_congr_left status_run_eq_two_iff)
  case output =>
    obtain ⟨errors, hrun⟩ := run_of_refused hrefused
    rw [hrun]
  case patterns =>
    rw [run_of_processes h hpatterns]
    constructor
    · refine (exitStatus_eq_iff (by decide)).trans (and_congr_right fun _ => ?_)
      exact status_runOn_eq_zero_iff
    · refine (exitStatus_eq_iff (by decide)).trans (and_congr_right fun _ => ?_)
      exact status_runOn_eq_one_iff
  case congr =>
    rw [Outcome.exitStatus, Outcome.exitStatus, status_run_congr h h' hpatterns]
  case errors =>
    have hnot : ¬ Refused arguments input := fun hrefused =>
      hstatus (exitStatus_eq_two_iff.2 (.inl (status_run_eq_two_iff.2 hrefused)))
    obtain ⟨o, patterns, h, hpatterns⟩ := hprocesses hnot
    rw [run_of_processes h hpatterns]
    exact errors_runOn (Options.verbose_of_parseFrom h hshort hlong)

/-- The first input holds a pattern with a link to nowhere, which the option does not make up for,
    and a good one. The second input holds only a good one. -/
theorem run_status_forced :
    (run ["--force"] "(? 1)\r\n \na b\n".toUTF8 false).exitStatus true = 1
      ∧ (run ["--force"] "(? 1)\r\n \na b\n".toUTF8 false).errors = ""
      ∧ (run [] "a b\n\t\r\n".toUTF8 false).exitStatus true = 0 := by
  obtain ⟨-, -, -, hprocessed, -, herrors⟩ :=
    run_status ["--force"] "(? 1)\r\n \na b\n".toUTF8 false true
  obtain ⟨-, -, -, hprocessed', -, -⟩ := run_status [] "a b\n\t\r\n".toUTF8 false true
  have hfails : convert (String.ofList ("(? 1)".toList.filter (· ≠ ' ')))
      = .error (.invalid (.undeclaredGroup 1)) := by
    cbv
  have hpasses : convert (String.ofList ("a b".toList.filter (· ≠ ' ')))
      = .ok ⟨#[[[.nonTerminal ⟨2⟩, .nonTerminal ⟨3⟩]], [[.terminal 'a']], [[.terminal 'b']]]⟩ := by
    cbv
  have hlines : ((segments "(? 1)\r\n \na b\n".toList).filter fun segment =>
      segment.any (! Text.isBlankChar ·)).map String.ofList = ["(? 1)", "a b"] := by
    decide
  have hlines' : ((segments "a b\n\t\r\n".toList).filter fun segment =>
      segment.any (! Text.isBlankChar ·)).map String.ofList = ["a b"] := by
    decide
  have hone := (hprocessed { force := true } _ rfl (.input rfl rfl)).2.2
    ⟨rfl, hlines ▸ ⟨"(? 1)", List.mem_cons_self, _, hfails⟩⟩
  have hzero := (hprocessed' {} _ rfl (.input rfl rfl)).1.2
    ⟨rfl, hlines' ▸ List.forall_mem_singleton.2 ⟨_, hpasses⟩⟩
  exact ⟨hone, herrors (by decide) (by decide) (by rw [hone]; decide), hzero⟩

/-! ## Patterns as arguments and as lines -/

/-- A pattern that a line of an input can hold as it is, and that is not skipped. -/
structure FitsLine (pattern : String) : Prop where
  oneLine : '\n' ∉ pattern.toList
  kept : pattern.toList.getLast? ≠ some '\r'
  notBlank : Text.isBlank pattern = false

/-- A text that holds some patterns, each of them on a line of its own. The end of the last line
    may be missing. -/
inductive Lists : List String → String → Prop
  | nil : Lists [] ""
  | last (pattern : String) : Lists [pattern] pattern
  | cons {pattern ending text : String} {patterns : List String}
      (hending : ending = "\n" ∨ ending = "\r\n") (h : Lists patterns text) :
      Lists (pattern :: patterns) (pattern ++ ending ++ text)

theorem FitsLine.lines_ended (h : FitsLine pattern) (hending : ending = "\n" ∨ ending = "\r\n")
    (rest : List Char) :
    Text.lines '\r' '\n' (pattern.toList ++ ending.toList ++ rest)
      = pattern.toList :: Text.lines '\r' '\n' rest := by
  rcases hending with rfl | rfl
  · have hitems : pattern.toList ++ "\n".toList ++ rest = pattern.toList ++ '\n' :: rest := by simp
    rw [hitems, Text.lines_append_lineFeed h.oneLine, Text.dropReturn_reverse h.kept,
      List.reverse_reverse]
  · -- The carriage return belongs to the scanned line and is dropped again.
    have hitems : pattern.toList ++ "\r\n".toList ++ rest
        = (pattern.toList ++ ['\r']) ++ '\n' :: rest := by simp
    have honeLine : '\n' ∉ pattern.toList ++ ['\r'] := by simp [h.oneLine]
    rw [hitems, Text.lines_append_lineFeed honeLine, Text.dropReturn_concat, List.reverse_reverse]

theorem FitsLine.lines_last (h : FitsLine pattern) :
    Text.lines '\r' '\n' pattern.toList = [pattern.toList] := by
  refine Text.lines_eq_singleton h.oneLine fun hempty => ?_
  have hblank := h.notBlank
  rw [Text.isBlank, hempty] at hblank
  cases hblank

theorem Lists.lines_eq (h : Lists patterns text) (hfits : ∀ p ∈ patterns, FitsLine p) :
    Text.lines '\r' '\n' text.toList = patterns.map String.toList := by
  induction h with
  | nil => rfl
  | last pattern => exact (hfits pattern List.mem_cons_self).lines_last
  | cons hending h ih =>
      rw [List.forall_mem_cons] at hfits
      rw [String.toList_append, String.toList_append, hfits.1.lines_ended hending, ih hfits.2,
        List.map_cons]

/-- Nothing is lost or added when patterns are written to lines and read from there. -/
theorem Lists.patternLines_eq (h : Lists patterns text) (hfits : ∀ p ∈ patterns, FitsLine p) :
    patternLines text = patterns := by
  have htexts : (patterns.map String.toList).map String.ofList = patterns := by simp
  unfold patternLines
  rw [h.lines_eq hfits, htexts, List.filter_eq_self]
  intro p hp
  rw [(hfits p hp).notBlank]
  rfl

/-- What is written about patterns does not depend on the patterns among the options. -/
theorem runOn_addPatterns (o : Options) (added : List String) :
    runOn (o.addPatterns added) terminal patterns = runOn o terminal patterns := rfl

/-- Patterns behind a `--` and patterns on the lines of an input are processed alike, whatever they
    look like. -/
theorem run_arguments_eq_run_lines {options patterns : List String} {o : Options} {text : String}
    (hoptions : Options.parse options = .ok o) (hnone : o.patterns = []) (hdashes : "--" ∉ options)
    (hsome : patterns ≠ []) (hfits : ∀ p ∈ patterns, FitsLine p) (htext : Lists patterns text)
    (input : ByteArray) (terminal : Bool) :
    run (options ++ "--" :: patterns) input terminal = run options text.toUTF8 terminal := by
  have hpatterns : (o.addPatterns patterns).patterns = patterns := by
    unfold Options.addPatterns
    rw [hnone, List.nil_append]
  have hgiven : Processes (o.addPatterns patterns) input patterns := .of_patterns hpatterns hsome
  have hread : Processes o text.toUTF8 patterns := by
    have hlines : Processes o text.toUTF8 _ := .input hnone rfl
    rwa [← patternLines_eq, htext.patternLines_eq hfits] at hlines
  rw [run_of_processes (Options.parse_append hoptions hdashes patterns) hgiven,
    run_of_processes hoptions hread, runOn_addPatterns]

theorem run_arguments_eq_run_lines_dashes :
    (∀ p ∈ ["--force", " (a|\rb)*"], FitsLine p)
      ∧ Lists ["--force", " (a|\rb)*"] ("--force" ++ "\r\n" ++ " (a|\rb)*")
      ∧ run ["--no-ast", "--", "--force", " (a|\rb)*"] ByteArray.empty false
        = run ["--no-ast"] ("--force" ++ "\r\n" ++ " (a|\rb)*").toUTF8 false := by
  have hoptions : Options.parse ["--no-ast"] = .ok { showTree := false } := rfl
  have hdashes : "--" ∉ ["--no-ast"] := by decide
  have hfirst : FitsLine "--force" := ⟨by decide, by decide, by decide⟩
  have hsecond : FitsLine " (a|\rb)*" := ⟨by decide, by decide, by decide⟩
  have hfits : ∀ p ∈ ["--force", " (a|\rb)*"], FitsLine p :=
    List.forall_mem_cons.2 ⟨hfirst, List.forall_mem_singleton.2 hsecond⟩
  have htext : Lists ["--force", " (a|\rb)*"] ("--force" ++ "\r\n" ++ " (a|\rb)*") :=
    .cons (.inr rfl) (.last _)
  exact ⟨hfits, htext,
    run_arguments_eq_run_lines hoptions rfl hdashes (by decide) hfits htext _ _⟩

end PatternGrammar
