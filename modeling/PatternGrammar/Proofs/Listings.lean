import PatternGrammar.Proofs.Printing
import PatternGrammar.Proofs.Splitting

set_option autoImplicit false

/-! # Listings of grammars are unambiguous

The listing of a grammar joins at three levels: rules by line feeds, alternatives by bars, symbols
by blanks. What is joined is a word of letters and digits at the innermost level, so cutting undoes
the joining at each level, and a word tells which symbol it stands for: a name has more characters
than a terminal, and no name begins as `epsilon` does. Two grammars with one listing are the same
(`Grammar.text_determines_grammar`), provided that no alternative is missing or empty. -/

namespace PatternGrammar

open Text

/-! ## Words -/

theorem NonTerminal.text_injective : Function.Injective NonTerminal.text := by
  intro name other h
  have hnumber := (String.append_right_inj "N").1 h
  exact congrArg NonTerminal.mk (Nat.repr_inj.1 hnumber)

theorem NonTerminal.toList_text (name : NonTerminal) :
    name.text.toList = 'N' :: Nat.toDigits 10 name.number := by
  rw [NonTerminal.text, String.toList_append, Nat.toString_eq_repr, Nat.toList_repr]
  rfl

namespace Grammar

namespace Symbol

/-- A terminal is one character, and a name has a digit behind its first one. -/
theorem text_terminal_ne_text_name (c : Char) (name : NonTerminal) :
    (terminal c).text ≠ (nonTerminal name).text := by
  intro h
  have hchars : [c] = 'N' :: Nat.toDigits 10 name.number := by
    rw [← name.toList_text, ← String.toList_singleton]
    exact congrArg String.toList h
  exact Nat.toDigits_ne_nil (List.cons.inj hchars).2.symm

theorem text_terminal_ne_text_epsilon (c : Char) : (terminal c).text ≠ epsilon.text := by
  intro h
  have hlength : 1 = "epsilon".toList.length := by
    rw [← List.length_singleton (a := c), ← String.toList_singleton]
    exact congrArg (fun text => text.toList.length) h
  exact absurd hlength (by decide)

theorem text_name_ne_text_epsilon (name : NonTerminal) :
    (nonTerminal name).text ≠ epsilon.text := by
  intro h
  have hfirst : some 'N' = "epsilon".toList.head? := by
    rw [← List.head?_cons, ← name.toList_text]
    exact congrArg (fun text => text.toList.head?) h
  exact absurd hfirst (by decide)

/-- Different symbols are written differently, whatever the characters of the terminals are. -/
theorem text_injective : Function.Injective Symbol.text := by
  intro s t h
  cases s with
  | terminal c =>
      cases t with
      | terminal d => exact congrArg terminal (String.singleton_inj.1 h)
      | nonTerminal name => exact absurd h (text_terminal_ne_text_name c name)
      | epsilon => exact absurd h (text_terminal_ne_text_epsilon c)
  | nonTerminal name =>
      cases t with
      | terminal d => exact absurd h.symm (text_terminal_ne_text_name d name)
      | nonTerminal other => exact congrArg nonTerminal (NonTerminal.text_injective h)
      | epsilon => exact absurd h (text_name_ne_text_epsilon name)
  | epsilon =>
      cases t with
      | terminal d => exact absurd h.symm (text_terminal_ne_text_epsilon d)
      | nonTerminal name => exact absurd h.symm (text_name_ne_text_epsilon name)
      | epsilon => rfl

theorem isAlphanum_of_mem_text {s : Symbol} (h : ∀ c, s = terminal c → c.isAlphanum) {x : Char}
    (hx : x ∈ s.text.toList) : x.isAlphanum := by
  cases s with
  | terminal c =>
      rw [Symbol.text, String.toList_singleton, List.mem_singleton] at hx
      exact hx ▸ h c rfl
  | nonTerminal name =>
      rw [Symbol.text, name.toList_text, List.mem_cons] at hx
      rcases hx with rfl | hdigit
      · rfl
      · have hisDigit := Nat.isDigit_of_mem_toDigits (by decide) (by decide) hdigit
        simp [Char.isAlphanum, hisDigit]
  | epsilon =>
      have hall : "epsilon".toList.all Char.isAlphanum := rfl
      exact List.all_eq_true.1 hall x hx

end Symbol

/-! ## Alternatives -/

/-- The alternatives of a rule that leave no gap in a listing, with letters and digits for
    terminals. -/
structure ListableRule (alternatives : List Alternative) : Prop where
  nonempty : alternatives ≠ []
  alternatives_nonempty : ∀ alternative ∈ alternatives, alternative ≠ []
  isAlphanum : ∀ alternative ∈ alternatives, ∀ c, .terminal c ∈ alternative → c.isAlphanum

/-- The words between the blanks of a rule: bars, and symbols. -/
def words (alternatives : List Alternative) : List String :=
  ["|"].intercalate (alternatives.map (·.map Symbol.text))

variable {alternatives alternatives' : List Alternative}

theorem words_cons {alternative : Alternative} (hrest : alternatives ≠ []) :
    words (alternative :: alternatives)
      = alternative.map Symbol.text ++ ["|"] ++ words alternatives := by
  rw [words, List.map_cons, List.intercalate_cons_of_ne_nil (by simpa using hrest)]
  rfl

theorem words_ne_nil (hsome : alternatives ≠ [])
    (h : ∀ alternative ∈ alternatives, alternative ≠ []) : words alternatives ≠ [] := by
  cases alternatives with
  | nil => exact absurd rfl hsome
  | cons alternative rest =>
      rw [List.forall_mem_cons] at h
      by_cases hrest : rest = []
      · subst hrest
        simpa [words] using h.1
      · rw [words_cons hrest]
        simp

/-- The bar between two alternatives is a word among the others. -/
theorem alternativesText_eq (h : ∀ alternative ∈ alternatives, alternative ≠ []) :
    alternativesText alternatives = " ".intercalate (words alternatives) := by
  induction alternatives with
  | nil => rfl
  | cons alternative rest ih =>
      rw [List.forall_mem_cons] at h
      by_cases hrest : rest = []
      · subst hrest
        simp [alternativesText, alternativeText, words]
      · have htexts : rest.map alternativeText ≠ [] := by simpa using hrest
        have hsymbols : alternative.map Symbol.text ≠ [] := by simpa using h.1
        have hfront : alternative.map Symbol.text ++ ["|"] ≠ [] := by simp
        have hseparator : " | " = " " ++ "|" ++ " " := by decide
        calc alternativesText (alternative :: rest)
            = alternativeText alternative ++ " | " ++ alternativesText rest :=
              String.intercalate_cons_of_ne_nil htexts
          _ = alternativeText alternative ++ " " ++ "|" ++ " " ++ " ".intercalate (words rest) := by
              rw [ih h.2, hseparator]
              simp only [String.append_assoc]
          _ = " ".intercalate (words (alternative :: rest)) := by
              rw [words_cons hrest,
                String.intercalate_append_of_ne_nil hfront (words_ne_nil hrest h.2),
                String.intercalate_append_of_ne_nil hsymbols (List.cons_ne_nil _ _),
                String.intercalate_singleton]
              rfl

theorem eq_or_exists_of_mem_words {word : String} (h : word ∈ words alternatives) :
    word = "|" ∨ ∃ alternative ∈ alternatives, ∃ s ∈ alternative, s.text = word := by
  induction alternatives with
  | nil => exact absurd h List.not_mem_nil
  | cons alternative rest ih =>
      by_cases hrest : rest = []
      · subst hrest
        have hmem : word ∈ alternative.map Symbol.text := by simpa [words] using h
        exact .inr ⟨alternative, List.mem_singleton_self _, List.mem_map.1 hmem⟩
      · rw [words_cons hrest, List.mem_append, List.mem_append, List.mem_singleton] at h
        rcases h with (hmem | hbar) | hmem
        · exact .inr ⟨alternative, List.mem_cons_self, List.mem_map.1 hmem⟩
        · exact .inl hbar
        · rcases ih hmem with hbar | ⟨other, hother, hsymbol⟩
          · exact .inl hbar
          · exact .inr ⟨other, List.mem_cons_of_mem _ hother, hsymbol⟩

namespace ListableRule

theorem isAlphanum_of_mem_text (h : ListableRule alternatives) {alternative : Alternative}
    (halternative : alternative ∈ alternatives) {s : Symbol} (hs : s ∈ alternative) {x : Char}
    (hx : x ∈ s.text.toList) : x.isAlphanum :=
  Symbol.isAlphanum_of_mem_text
    (fun c hc => h.isAlphanum alternative halternative c (hc ▸ hs)) hx

theorem blank_not_mem_words (h : ListableRule alternatives) :
    ∀ word ∈ (words alternatives).map String.toList, ' ' ∉ word := by
  rw [List.forall_mem_map]
  intro word hword hblank
  rcases eq_or_exists_of_mem_words hword with rfl | ⟨alternative, halternative, s, hs, rfl⟩
  · exact absurd hblank (by decide)
  · exact absurd (h.isAlphanum_of_mem_text halternative hs hblank) (by decide)

theorem bar_not_mem_texts (h : ListableRule alternatives) :
    ∀ texts ∈ alternatives.map (·.map Symbol.text), "|" ∉ texts := by
  rw [List.forall_mem_map]
  intro alternative halternative hbar
  obtain ⟨s, hs, htext⟩ := List.mem_map.1 hbar
  have hmem : '|' ∈ s.text.toList := by
    rw [htext]
    decide
  exact absurd (h.isAlphanum_of_mem_text halternative hs hmem) (by decide)

/-- The blanks are the ones between the words. -/
theorem words_eq (h : ListableRule alternatives) (h' : ListableRule alternatives')
    (heq : alternativesText alternatives = alternativesText alternatives') :
    words alternatives = words alternatives' := by
  have hchars : [' '].intercalate ((words alternatives).map String.toList)
      = [' '].intercalate ((words alternatives').map String.toList) := by
    rw [alternativesText_eq h.alternatives_nonempty,
      alternativesText_eq h'.alternatives_nonempty] at heq
    have htoList := congrArg String.toList heq
    rwa [String.toList_intercalate, String.toList_intercalate] at htoList
  have hsome : ∀ {rule : List Alternative}, ListableRule rule →
      (words rule).map String.toList ≠ [] := fun hrule =>
    mt List.map_eq_nil_iff.1 (words_ne_nil hrule.nonempty hrule.alternatives_nonempty)
  have hmap := intercalate_injective (hsome h) (hsome h') h.blank_not_mem_words
    h'.blank_not_mem_words hchars
  exact List.map_injective_iff.2 (fun _ _ => String.toList_inj.1) hmap

/-- The bars among the words are the ones between the alternatives. -/
theorem eq_of_alternativesText (h : ListableRule alternatives) (h' : ListableRule alternatives')
    (heq : alternativesText alternatives = alternativesText alternatives') :
    alternatives = alternatives' := by
  have hsome : ∀ {rule : List Alternative}, ListableRule rule →
      rule.map (·.map Symbol.text) ≠ [] := fun hrule =>
    mt List.map_eq_nil_iff.1 hrule.nonempty
  have hmap := intercalate_injective (hsome h) (hsome h') h.bar_not_mem_texts
    h'.bar_not_mem_texts (h.words_eq h' heq)
  exact List.map_injective_iff.2 (List.map_injective_iff.2 Symbol.text_injective) hmap

end ListableRule

/-! ## Rules -/

/-- A grammar whose rules are all listable. -/
def IsListable (g : Grammar) : Prop :=
  ∀ alternatives ∈ g.rules, ListableRule alternatives

theorem getElem?_rows (g : Grammar) (head : NonTerminal → String) (k : Nat) :
    (g.rows head)[k]? = g.rules[k]?.map fun alternatives =>
      head ⟨k + 1⟩ ++ " → " ++ alternativesText alternatives := by
  simp [rows, entries, Function.comp_def]

theorem IsListable.lineFeed_not_mem_rows {g : Grammar} (h : g.IsListable) :
    ∀ row ∈ g.rows NonTerminal.text, '\n' ∉ row.toList := by
  refine avoids_rows lineFeed_isControl (NonTerminal.avoids_text lineFeed_isControl) ?_
  intro alternatives halternatives alternative halternative hfeed
  exact lineFeed_isControl.not_isAlphanum
    ((h alternatives halternatives).isAlphanum alternative halternative _ hfeed)

/-- Rules with the same place in two listings have the same head, so they differ in their
    alternatives if at all. -/
theorem IsListable.eq_of_text {g g' : Grammar} (h : g.IsListable) (h' : g'.IsListable)
    (heq : g.text = g'.text) : g = g' := by
  have hrows := unlines_injective h.lineFeed_not_mem_rows h'.lineFeed_not_mem_rows heq
  have hrule : ∀ k : Nat, g.rules[k]? = g'.rules[k]? := by
    intro k
    have hrow := congrArg (fun rows => rows[k]?) hrows
    simp only [getElem?_rows] at hrow
    cases hk : g.rules[k]? with
    | none =>
        rw [hk, Option.map_none, eq_comm, Option.map_eq_none_iff] at hrow
        exact hrow.symm
    | some alternatives =>
        rw [hk, Option.map_some, eq_comm, Option.map_eq_some_iff] at hrow
        obtain ⟨alternatives', hk', hline⟩ := hrow
        have htext := (String.append_right_inj _).1 hline
        have hmem := Array.mem_of_getElem? hk
        have hmem' := Array.mem_of_getElem? hk'
        rw [hk', (h' _ hmem').eq_of_alternativesText (h _ hmem) htext]
  exact congrArg Grammar.mk (Array.ext_getElem? hrule)

end Grammar

/-- The grammar of a pattern that was read can be listed: every node dictates some alternative, and
    the symbols of the pattern are letters and digits. -/
theorem Pattern.isListable_grammar {text : String} {p : Pattern} {g : Grammar}
    (hparse : parse text = .ok p) (hgrammar : p.grammar = .ok g) : g.IsListable := by
  intro alternatives hrule
  obtain ⟨k, hk⟩ := Array.mem_iff_getElem?.1 hrule
  have hget : g.get? ⟨k + 1⟩ = some alternatives := hk
  obtain ⟨node, hnode⟩ := exists_nodeAt? hgrammar hget
  obtain ⟨_, hget', hdictates⟩ := get?_grammar hgrammar hnode
  obtain rfl := Option.some.inj (hget.symm.trans hget')
  refine ⟨?_, ?_, ?_⟩
  · cases hdictates <;> exact List.cons_ne_nil _ _
  · cases hdictates <;> simp
  · intro alternative halternative c hc
    exact (canonical_of_parse hparse).fits _
      (symbol_mem_of_terminal hgrammar hrule halternative hc)

/-- A listing tells its grammar. Names, symbols and alternatives that differ are written
    differently, and so are grammars that differ, as long as they leave no gap in their listings;
    the grammars of patterns that were read do not. -/
theorem listing_determines_grammar :
    Function.Injective NonTerminal.text
      ∧ Function.Injective Grammar.Symbol.text
      ∧ (∀ alternatives alternatives' : List Grammar.Alternative,
        Grammar.ListableRule alternatives → Grammar.ListableRule alternatives' →
        Grammar.alternativesText alternatives = Grammar.alternativesText alternatives' →
        alternatives = alternatives')
      ∧ (∀ g g' : Grammar, g.IsListable → g'.IsListable → g.text = g'.text → g = g')
      ∧ ∀ (text : String) (p : Pattern) (g : Grammar),
        Pattern.parse text = .ok p → p.grammar = .ok g → g.IsListable := by
  refine ⟨NonTerminal.text_injective, Grammar.Symbol.text_injective, ?_, ?_, ?_⟩
  · intro alternatives alternatives' h h' heq
    exact h.eq_of_alternativesText h' heq
  · intro g g' h h' heq
    exact h.eq_of_text h' heq
  · intro text p g hparse hgrammar
    exact Pattern.isListable_grammar hparse hgrammar

/-- A name is told from the terminals that it looks like, and the grammar of `e(N)(?1)` from any
    other one. -/
theorem listing_determines_grammar_letters :
    (⟨#[[[.terminal 'N', .terminal '1']]]⟩ : Grammar).text
        ≠ (⟨#[[[.nonTerminal ⟨1⟩]]]⟩ : Grammar).text
      ∧ ∃ p g, Pattern.parse "e(N)(?1)" = .ok p ∧ p.grammar = .ok g ∧ g.IsListable := by
  obtain ⟨-, -, -, hgrammars, hread⟩ := listing_determines_grammar
  constructor
  · intro heq
    have hterminals : (⟨#[[[.terminal 'N', .terminal '1']]]⟩ : Grammar).IsListable := by
      simp only [Grammar.IsListable, List.mem_toArray, List.forall_mem_singleton]
      exact ⟨by simp, by simp, by simp⟩
    have hname : (⟨#[[[.nonTerminal ⟨1⟩]]]⟩ : Grammar).IsListable := by
      simp only [Grammar.IsListable, List.mem_toArray, List.forall_mem_singleton]
      exact ⟨by simp, by simp, by simp⟩
    exact absurd (hgrammars _ _ hterminals hname heq) (by decide)
  · have hparse : Pattern.parse "e(N)(?1)"
        = .ok (.concat (.concat (.symbol 'e') (.capture (.symbol 'N') 1)) (.link 1)) := by
      decide +kernel
    exact ⟨_, _, hparse, rfl, hread _ _ _ hparse rfl⟩

end PatternGrammar
