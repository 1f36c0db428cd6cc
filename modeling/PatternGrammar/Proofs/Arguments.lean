import PatternGrammar.Options

set_option autoImplicit false

/-! # What arguments ask for

The first `--` cuts the arguments in two. Those before it are options and patterns, taken one by
one (`Options.step`), and those behind it are patterns (`Options.parseFrom_eq`). So patterns can be
added to any options behind a `--` (`Options.parse_append`), and nothing but its own options sets
the switch for the log (`Options.verbose_of_parseFrom`). -/

namespace PatternGrammar

/-- The arguments before the first `--`. -/
def optionArguments (arguments : List String) : List String :=
  arguments.takeWhile (· ≠ "--")

/-- The arguments behind the first `--`. -/
def patternArguments (arguments : List String) : List String :=
  (arguments.dropWhile (· ≠ "--")).tail

theorem Flag.eq_of_ofArgument_eq_verbose {argument : String}
    (h : Flag.ofArgument argument = .ok .verbose) : argument = "-v" ∨ argument = "--verbose" := by
  unfold Flag.ofArgument at h
  split at h
  case h_1 => exact .inl rfl
  case h_2 => exact .inr rfl
  case h_9 => split at h <;> cases h
  all_goals cases h

namespace Options

variable {o o' : Options}

/-- The options that result from `o` and one more argument, which is not `--`. -/
def step (o : Options) (argument : String) : Except UsageError Options :=
  if argument.toList.head? = some '-' then o.set <$> Flag.ofArgument argument
  else .ok (o.addPatterns [argument])

theorem parseFrom_cons {argument : String} (h : argument ≠ "--") (rest : List String) :
    o.parseFrom (argument :: rest) = (o.step argument >>= (·.parseFrom rest)) := by
  rw [parseFrom, if_neg h, step]
  split
  · cases Flag.ofArgument argument <;> rfl
  · rfl

theorem parseFrom_dashes (patterns : List String) :
    o.parseFrom ("--" :: patterns) = .ok (o.addPatterns patterns) :=
  if_pos rfl

theorem addPatterns_nil (o : Options) : o.addPatterns [] = o := by
  rw [addPatterns, List.append_nil]

/-- Options and patterns are taken up to the first `--`, and then only patterns. -/
theorem parseFrom_eq (o : Options) (arguments : List String) :
    o.parseFrom arguments
      = (·.addPatterns (patternArguments arguments))
          <$> (optionArguments arguments).foldlM step o := by
  induction arguments generalizing o with
  | nil => exact congrArg Except.ok o.addPatterns_nil.symm
  | cons argument rest ih =>
      by_cases h : argument = "--"
      · subst h
        exact parseFrom_dashes rest
      · have hoptions : optionArguments (argument :: rest) = argument :: optionArguments rest :=
          List.takeWhile_cons_of_pos (by simpa using h)
        have hpatterns : patternArguments (argument :: rest) = patternArguments rest :=
          congrArg List.tail (List.dropWhile_cons_of_pos (by simpa using h))
        rw [parseFrom_cons h, hoptions, hpatterns, List.foldlM_cons, map_bind]
        exact congrArg _ (funext ih)

/-- Patterns behind a `--` are added to what the arguments before it ask for. -/
theorem parseFrom_append {options : List String} (h : "--" ∉ options) (o : Options)
    (patterns : List String) :
    o.parseFrom (options ++ "--" :: patterns)
      = (·.addPatterns patterns) <$> o.parseFrom options := by
  induction options generalizing o with
  | nil => exact parseFrom_dashes patterns
  | cons argument rest ih =>
      rw [List.mem_cons, not_or] at h
      rw [List.cons_append, parseFrom_cons (Ne.symm h.1), parseFrom_cons (Ne.symm h.1), map_bind]
      exact congrArg _ (funext (ih h.2))

theorem parse_append {options : List String} (hoptions : parse options = .ok o)
    (hdashes : "--" ∉ options) (patterns : List String) :
    parse (options ++ "--" :: patterns) = .ok (o.addPatterns patterns) := by
  unfold parse at hoptions ⊢
  rw [parseFrom_append hdashes, hoptions]
  rfl

/-! ## The switch for the log -/

theorem verbose_of_step {argument : String} (h : o.step argument = .ok o')
    (hshort : argument ≠ "-v") (hlong : argument ≠ "--verbose") : o'.verbose = o.verbose := by
  unfold step at h
  split at h
  · cases hflag : Flag.ofArgument argument with
    | error e =>
        rw [hflag] at h
        exact nomatch h
    | ok flag =>
        rw [hflag] at h
        obtain rfl := Except.ok.inj h
        cases flag with
        | verbose =>
            rcases Flag.eq_of_ofArgument_eq_verbose hflag with rfl | rfl
            · exact absurd rfl hshort
            · exact absurd rfl hlong
        | _ => rfl
  · obtain rfl := Except.ok.inj h
    rfl

/-- The steps of a run are logged only if an option before the first `--` asks for it. -/
theorem verbose_of_parseFrom {arguments : List String} (h : o.parseFrom arguments = .ok o')
    (hshort : "-v" ∉ optionArguments arguments) (hlong : "--verbose" ∉ optionArguments arguments) :
    o'.verbose = o.verbose := by
  rw [parseFrom_eq] at h
  generalize optionArguments arguments = options at h hshort hlong
  induction options generalizing o with
  | nil =>
      obtain rfl := Except.ok.inj h
      rfl
  | cons argument rest ih =>
      rw [List.mem_cons, not_or] at hshort hlong
      rw [List.foldlM_cons] at h
      cases hstep : o.step argument with
      | error e =>
          rw [hstep] at h
          exact nomatch h
      | ok next =>
          rw [hstep] at h
          rw [ih h hshort.2 hlong.2, verbose_of_step hstep (Ne.symm hshort.1) (Ne.symm hlong.1)]

end Options

end PatternGrammar
