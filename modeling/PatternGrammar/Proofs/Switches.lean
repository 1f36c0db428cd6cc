import Mathlib.Data.List.Basic
import Mathlib.Data.List.Induction
import PatternGrammar.Proofs.Arguments

set_option autoImplicit false

/-! # Arguments without their order

Arguments are taken one by one, but little of their order matters. What they ask for can be read
off the whole list (`asked`): a switch is set if its name occurs, the last choice of colors counts,
and the patterns stay in their order. If an argument looks like an option and is none, the first
such argument decides the error (`refusal`). So it makes no difference where an option that sets a
switch stands (`parse_order_free`). -/

namespace PatternGrammar

/-! ## The description -/

/-- The names of the options that set a switch. -/
def switchNames : List String :=
  ["-v", "--verbose", "--no-ast", "--no-grammar", "--force"]

/-- The names of the options that choose colors. -/
def colorNames : List String :=
  ["--color=always", "--color=never", "--color=auto"]

/-- The choice of colors that an argument names. -/
def colorChoice? : String → Option ColorChoice
  | "--color=always" => some .always
  | "--color=never" => some .never
  | "--color=auto" => some .auto
  | _ => none

/-- Whether an argument is read as an option. -/
def looksLikeOption (argument : String) : Bool :=
  argument.toList.head? = some '-'

/-- Whether an argument is read as an option and is none. -/
def isForeign (argument : String) : Bool :=
  looksLikeOption argument ∧ argument ∉ switchNames ∧ argument ∉ colorNames

/-- The error of an argument that is read as an option and is none. -/
def refusal (argument : String) : UsageError :=
  if "--color=".toList <+: argument.toList then
    .invalidColor (String.ofList (argument.toList.drop "--color=".length))
  else .unknownOption argument

/-- What is asked for by `options`, which stand before the first `--`, and by `patterns`, which
    stand behind it. -/
def asked (options patterns : List String) : Options where
  patterns := options.filter (! looksLikeOption ·) ++ patterns
  showTree := "--no-ast" ∉ options
  showGrammar := "--no-grammar" ∉ options
  force := "--force" ∈ options
  verbose := "-v" ∈ options ∨ "--verbose" ∈ options
  color := (options.filterMap colorChoice?).getLast?.getD .never

/-! ## One argument -/

theorem Flag.ofArgument_foreign {argument : String} (hswitch : argument ∉ switchNames)
    (hcolor : argument ∉ colorNames) :
    Flag.ofArgument argument = .error (refusal argument) := by
  unfold Flag.ofArgument
  split
  case h_9 =>
    unfold refusal
    split
    next value hvalue =>
      have hchars := List.append_eq_of_isPrefixOf?_eq_some hvalue
      have hdrop : argument.toList.drop "--color=".length = value := by
        rw [← hchars]
        exact List.drop_left' rfl
      rw [if_pos ⟨value, hchars⟩, hdrop]
    next hnone =>
      rw [if_neg]
      rintro ⟨value, hchars⟩
      rw [List.isPrefixOf?_eq_some_iff_append_eq.2 hchars] at hnone
      exact nomatch hnone
  -- Every other case is one of the known names.
  case h_1 | h_2 | h_3 | h_4 | h_5 => exact absurd (by decide) hswitch
  case h_6 | h_7 | h_8 => exact absurd (by decide) hcolor

namespace Options

theorem step_foreign {argument : String} (h : isForeign argument) (o : Options) :
    o.step argument = .error (refusal argument) := by
  obtain ⟨hdash, hswitch, hcolor⟩ := of_decide_eq_true h
  rw [step, if_pos (of_decide_eq_true hdash), Flag.ofArgument_foreign hswitch hcolor]
  rfl

theorem asked_addPatterns (options patterns : List String) :
    (asked options []).addPatterns patterns = asked options patterns := by
  simp [asked, addPatterns]

/-- A pattern among the options is added to the patterns, and nothing else changes. -/
theorem asked_concat_pattern {argument : String} (h : looksLikeOption argument = false)
    (options : List String) :
    asked (options ++ [argument]) [] = (asked options []).addPatterns [argument] := by
  have hmem : ∀ name, looksLikeOption name = true →
      (name ∈ options ++ [argument] ↔ name ∈ options) := by
    intro name hname
    have hne : name ≠ argument := by
      rintro rfl
      exact absurd hname (ne_true_of_eq_false h)
    rw [List.mem_append, List.mem_singleton, or_iff_left hne]
  have hcolor : colorChoice? argument = none := by
    unfold colorChoice?
    split
    case h_4 => rfl
    all_goals exact absurd h (by decide)
  simp [asked, addPatterns, h, hcolor, hmem "-v" rfl, hmem "--verbose" rfl, hmem "--no-ast" rfl,
    hmem "--no-grammar" rfl, hmem "--force" rfl]

theorem step_asked {argument : String} (h : ¬ isForeign argument) (options : List String) :
    (asked options []).step argument = .ok (asked (options ++ [argument]) []) := by
  unfold step
  split
  next hdash =>
    have hknown : argument ∈ switchNames ++ colorNames := by
      by_contra hnot
      rw [List.mem_append, not_or] at hnot
      exact h (decide_eq_true ⟨decide_eq_true hdash, hnot⟩)
    simp only [switchNames, colorNames, List.cons_append, List.nil_append, List.mem_cons,
      List.not_mem_nil, or_false] at hknown
    rcases hknown with rfl | rfl | rfl | rfl | rfl | rfl | rfl | rfl
    -- Each name sets its own switch and occurs in the longer list, and the other names do not.
    all_goals
      refine congrArg Except.ok ?_
      simp [asked, set, looksLikeOption, colorChoice?]
  next hdash =>
    have hlooks : looksLikeOption argument = false := decide_eq_false hdash
    rw [asked_concat_pattern hlooks]

/-! ## All arguments -/

/-- The first foreign argument before the first `--` is refused, and without one everything that
    the arguments ask for is there. -/
theorem foldlM_step_eq (options : List String) :
    options.foldlM step {} = match options.find? isForeign with
      | some argument => .error (refusal argument)
      | none => .ok (asked options []) := by
  induction options using List.reverseRecOn with
  | nil => rfl
  | append_singleton options argument ih =>
      rw [List.foldlM_append, ih, List.find?_append]
      cases options.find? isForeign with
      | some first => rfl
      | none =>
          rw [Option.none_or]
          by_cases h : isForeign argument
          · rw [List.find?_cons_of_pos h]
            show ((asked options []).step argument >>= pure) = _
            rw [step_foreign h]
            rfl
          · rw [List.find?_cons_of_neg h]
            show ((asked options []).step argument >>= pure) = _
            rw [step_asked h]
            rfl

theorem parse_eq (arguments : List String) :
    parse arguments = match (optionArguments arguments).find? isForeign with
      | some argument => .error (refusal argument)
      | none => .ok (asked (optionArguments arguments) (patternArguments arguments)) := by
  rw [parse, parseFrom_eq, foldlM_step_eq]
  cases (optionArguments arguments).find? isForeign with
  | some argument => rfl
  | none => exact congrArg Except.ok (asked_addPatterns _ _)

end Options

/-! ## Moving an option -/

variable {option : String}

theorem not_isForeign_of_mem_switchNames (h : option ∈ switchNames) : ¬ isForeign option :=
  fun hforeign => (of_decide_eq_true hforeign).2.1 h

theorem looksLikeOption_of_mem_switchNames (h : option ∈ switchNames) :
    looksLikeOption option = true := by
  revert option
  decide

theorem colorChoice?_of_mem_switchNames (h : option ∈ switchNames) :
    colorChoice? option = none := by
  revert option
  decide

/-- An option that sets a switch may as well stand in front of all others. -/
theorem asked_middle (h : option ∈ switchNames) (first second patterns : List String) :
    asked (first ++ option :: second) patterns = asked (option :: (first ++ second)) patterns := by
  have hmem : ∀ name, name ∈ first ++ option :: second ↔ name ∈ option :: (first ++ second) :=
    fun _ => List.perm_middle.mem_iff
  have hpatterns : (first ++ option :: second).filter (! looksLikeOption ·)
      = (option :: (first ++ second)).filter (! looksLikeOption ·) := by
    simp [looksLikeOption_of_mem_switchNames h]
  have hcolors : (first ++ option :: second).filterMap colorChoice?
      = (option :: (first ++ second)).filterMap colorChoice? := by
    simp [colorChoice?_of_mem_switchNames h]
  simp only [asked, hmem, hpatterns, hcolors]

theorem find?_isForeign_middle (h : option ∈ switchNames) (first second : List String) :
    (first ++ option :: second).find? isForeign = (first ++ second).find? isForeign := by
  rw [List.find?_append, List.find?_cons_of_neg (not_isForeign_of_mem_switchNames h),
    List.find?_append]

/-- What arguments ask for, without the order in which they are taken. The first one before `--`
    that looks like an option and is none is refused. Otherwise the switches are set whose names
    occur before `--`, the last choice of colors counts, and the patterns are all other arguments
    before `--` and all arguments behind it. So nothing changes if an option that sets a switch is
    moved to another place before `--`. -/
theorem parse_order_free (arguments : List String) :
    Options.parse arguments = (match (optionArguments arguments).find? isForeign with
        | some argument => .error (refusal argument)
        | none => .ok (asked (optionArguments arguments) (patternArguments arguments)))
      ∧ ∀ moved option first second first' second', option ∈ switchNames →
        optionArguments arguments = first ++ option :: second →
        optionArguments moved = first' ++ option :: second' → first ++ second = first' ++ second' →
        patternArguments moved = patternArguments arguments →
          Options.parse moved = Options.parse arguments := by
  refine ⟨Options.parse_eq arguments, ?_⟩
  intro moved option first second first' second' hoption hplace hplace' hothers hpatterns
  rw [Options.parse_eq, Options.parse_eq, hplace, hplace', hpatterns,
    find?_isForeign_middle hoption, find?_isForeign_middle hoption, asked_middle hoption,
    asked_middle hoption, hothers]

theorem parse_order_free_moved :
    Options.parse ["--color=always", "a", "-v", "--color=auto", "--", "--force"]
        = .ok { patterns := ["a", "--force"], verbose := true, color := .auto }
      ∧ Options.parse ["-v", "--color=always", "a", "--color=auto", "--", "--force"]
        = .ok { patterns := ["a", "--force"], verbose := true, color := .auto } := by
  obtain ⟨hparse, hmoved⟩ :=
    parse_order_free ["--color=always", "a", "-v", "--color=auto", "--", "--force"]
  have hsame := hmoved ["-v", "--color=always", "a", "--color=auto", "--", "--force"] "-v"
    ["--color=always", "a"] ["--color=auto"] [] ["--color=always", "a", "--color=auto"]
    (by decide) rfl rfl rfl rfl
  exact ⟨hparse, hsame.trans hparse⟩

/-- The pattern before and the choice of colors behind a lone `-` do not count. -/
example : Options.parse ["a", "-", "--color=red"] = .error (.unknownOption "-") := rfl

end PatternGrammar
