import PatternGrammar.Proofs.Openings
import PatternGrammar.Proofs.SyntaxErrors

set_option autoImplicit false

/-! # Kinds of errors in a text

Which kind of error is reported can be told from the text alone, without reading it: from the
characters that do not belong to the notation, from what is derived in front of the place of the
error, and from whether parentheses would complete the text (`Pattern.parse_error_kind`). -/

namespace PatternGrammar

/-- The text goes on with a closing parenthesis behind a whole derived text. -/
def ClosesNothing (chars : List Char) (position : Nat) : Prop :=
  chars[position]? = some ')' ∧ Derivable (chars.take position)

/-- A group is open and nothing but its end can follow: it is a link, or the text is over and
    parentheses would complete it. -/
def LacksClosing (chars : List Char) (position : Nat) : Prop :=
  (∃ (before : List Char) (digit : Char),
      digit.isDigit ∧ chars.take position = before ++ ['(', '?', digit])
    ∨ position = chars.length ∧ ∃ count ≥ 1, Derivable (chars ++ List.replicate count ')')

theorem Gap.refusal_ne_expectedEnd (gap : Gap) (found found' : Token) (position position' : Nat) :
    gap.refusal found position ≠ .expectedEnd found' position' := by
  cases gap <;> simp [refusal]

namespace Beginning

variable {form : Form}

/-- A group with a pattern inside is not closed only because the text is over. -/
theorem eq_of_refuses_closing {b : Beginning form} (hgap : b.gap = .closing) {next : Token}
    (h : b.Refuses next) : next = .endOfInput := by
  induction b with
  | single first ih | start first ih => exact ih hgap h
  | item inner ih => exact ih hgap h
  | bar before last ih => exact ih hgap h
  | juxtapose before last ih => exact ih hgap h.1
  | inside bracket body ih => exact ih hgap h.1
  | unclosed bracket body => exact h
  | nothing | unknown | unclosedLink => exact nomatch hgap

/-- Where an item or the kind of a group is missing at the end, a closing parenthesis does not help
    either. -/
theorem refuses_rightParen {b : Beginning form} (hgap : b.gap = .item ∨ b.gap = .kind)
    (h : b.Refuses .endOfInput) : b.Refuses .rightParen := by
  induction b with
  | single first ih | start first ih => exact ih hgap h
  | item inner ih => exact ih hgap h
  | bar before last ih => exact ih hgap h
  | juxtapose before last ih =>
      obtain ⟨hlast, hstops, hstar⟩ := h
      refine ⟨ih hgap hlast, ?_⟩
      -- At the end nothing would be juxtaposed, so something of the last part is there.
      cases htokens : last.tokens with
      | nil =>
          rw [htokens] at hstops
          exact absurd (.inr (.inr rfl)) hstops
      | cons token rest =>
          rw [htokens] at hstops hstar
          exact ⟨hstops, hstar⟩
  | inside bracket body ih =>
      refine ⟨ih hgap h.1, fun hcapture => ?_⟩
      have hquestion := h.2 hcapture
      cases htokens : body.tokens with
      | nil => decide
      | cons token rest =>
          rw [htokens] at hquestion
          exact hquestion
  | nothing => exact fun hbegins => nomatch hbegins
  | unknown => exact ⟨by decide, by decide, rfl⟩
  | unclosed | unclosedLink => simp [gap] at hgap

/-- No derived text goes on behind a beginning of it with a token that the beginning refuses. -/
theorem not_refuses_of_derivation {b : Beginning .alternative} {d : Derivation .alternative}
    {behind : List Char} (h : d.chars = b.chars ++ behind) :
    ¬ b.Refuses (Token.first behind) := by
  intro hrefuses
  have hchars := d.inNotation_chars
  rw [h, Token.inNotation_append] at hchars
  have hplace := (Unreadable.broken b h hchars.2 hrefuses).place?_eq_none ⟨d, rfl⟩
  rw [Gap.place?_refusal] at hplace
  exact nomatch hplace

/-- A text that breaks off lacks the end of a group exactly if this is what the reader misses. -/
theorem lacksClosing_iff (b : Beginning .alternative) {behind : List Char}
    (hbehind : Token.InNotation behind) (hrefuses : b.Refuses (Token.first behind)) :
    LacksClosing (b.chars ++ behind) b.chars.length
      ↔ b.gap = .closing ∨ b.gap = .linkClosing := by
  rw [LacksClosing, List.take_left]
  constructor
  · rintro (⟨before, digit, isDigit, hchars⟩ | ⟨hlength, count, hcount, d, hd⟩)
    · refine .inr (Decidable.byContradiction fun hgap => ?_)
      have hmarks := b.behindMarks hgap
      rw [hchars, List.append_cons] at hmarks
      exact hmarks.behind digit isDigit rfl
    · obtain rfl : behind = [] := List.eq_nil_of_length_eq_zero (by simpa using hlength)
      obtain ⟨more, rfl⟩ := Nat.exists_eq_add_of_le' hcount
      rw [List.append_nil] at hd
      have hparen := not_refuses_of_derivation hd
      cases hgap : b.gap with
      | closing => exact .inl rfl
      | linkClosing => exact .inr rfl
      | item => exact absurd (refuses_rightParen (.inl hgap) hrefuses) hparen
      | kind => exact absurd (refuses_rightParen (.inr hgap) hrefuses) hparen
  · rintro (hgap | hgap)
    · obtain rfl := Token.eq_nil_of_first hbehind (eq_of_refuses_closing hgap hrefuses)
      obtain ⟨count, hcount⟩ := missing_of_closing hgap
      refine .inr ⟨by simp, count + 1, by simp, b.completion, ?_⟩
      rw [List.append_nil, b.chars_completion, hcount]
    · obtain ⟨before, digit, isDigit, hchars⟩ := b.exists_link_end hgap
      exact .inl ⟨before, digit, isDigit, hchars⟩

end Beginning

namespace Unreadable

variable {chars : List Char} {e : SyntaxError} {found : Token} {position : Nat}

theorem unique {e' : SyntaxError} (h : Unreadable chars e) (h' : Unreadable chars e') :
    e = e' := by
  have heq : (String.ofList chars).toList = chars := String.toList_ofList
  rw [← heq] at h h'
  have hparse := Pattern.parse_eq_error_iff.2 h
  exact Except.error.inj (hparse.symm.trans (Pattern.parse_eq_error_iff.2 h'))

theorem invalidCharacter_iff (h : Unreadable chars e) {c : Char} :
    e = .invalidCharacter c position ↔ ∃ before behind, chars = before ++ c :: behind
      ∧ (∀ x ∈ before, Token.Belongs x) ∧ ¬ Token.Belongs c ∧ position = before.length := by
  constructor
  · intro he
    cases h with
    | foreign htext hbefore hc =>
        obtain ⟨rfl, rfl⟩ := SyntaxError.invalidCharacter.inj he
        refine ⟨_, _, htext, Token.inNotation_iff.1 hbefore, ?_, rfl⟩
        rw [← Token.isSome_ofChar?_iff, hc]
        exact Bool.false_ne_true
    | broken b =>
        exact nomatch (Gap.place?_refusal ..).symm.trans (congrArg SyntaxError.place? he)
    | excess | captures => exact nomatch he
  · rintro ⟨before, behind, htext, hbefore, hc, rfl⟩
    rw [← Token.isSome_ofChar?_iff, Option.not_isSome_iff_eq_none] at hc
    exact h.unique (.foreign htext (Token.inNotation_iff.2 hbefore) hc)

theorem exists_invalidCharacter_iff (h : Unreadable chars e) :
    (∃ c position, e = .invalidCharacter c position) ↔ ∃ c ∈ chars, ¬ Token.Belongs c := by
  constructor
  · rintro ⟨c, position, he⟩
    obtain ⟨before, behind, rfl, -, hc, -⟩ := h.invalidCharacter_iff.1 he
    exact ⟨c, by simp, hc⟩
  · rintro ⟨x, hx, hforeign⟩
    refine Classical.byContradiction fun hnot => ?_
    have hchars := h.inNotation fun c position he => hnot ⟨c, position, he⟩
    exact hforeign (Token.inNotation_iff.1 hchars x hx)

theorem tooManyCaptures_iff (h : Unreadable chars e) {count : Nat} :
    e = .tooManyCaptures count ↔ Derivable chars ∧ count = (captureOpenings chars).length
      ∧ 9 < count := by
  constructor
  · intro he
    cases h with
    | captures d htext hmany =>
        obtain rfl := SyntaxError.tooManyCaptures.inj he
        exact ⟨⟨d, htext.symm⟩, by rw [htext, d.length_captureOpenings], hmany⟩
    | broken b =>
        exact nomatch (Gap.place?_refusal ..).symm.trans (congrArg SyntaxError.place? he)
    | foreign | excess => exact nomatch he
  · rintro ⟨⟨d, rfl⟩, rfl, hmany⟩
    rw [d.length_captureOpenings] at hmany ⊢
    exact h.unique (.captures d rfl hmany)

theorem expectedEnd_iff (h : Unreadable chars e) (hplace : e.place? = some (found, position)) :
    e = .expectedEnd found position ↔ ClosesNothing chars position := by
  constructor
  · intro he
    cases h with
    | excess d htext hbehind =>
        obtain ⟨rfl, rfl⟩ := SyntaxError.expectedEnd.inj he
        refine ⟨by simp [htext], d, ?_⟩
        rw [htext, List.take_left]
    | broken b => exact (Gap.refusal_ne_expectedEnd _ _ _ _ _ he).elim
    | foreign | captures => exact nomatch he
  · rintro ⟨hparen, d, hd⟩
    obtain ⟨hlt, hget⟩ := List.getElem?_eq_some_iff.1 hparen
    have htext : chars = d.chars ++ ')' :: chars.drop (position + 1) := by
      rw [hd, ← hget, List.getElem_cons_drop, List.take_append_drop]
    have hchars : Token.InNotation chars := by
      refine h.inNotation ?_
      rintro c position rfl
      exact nomatch hplace
    have hbehind : Token.InNotation (chars.drop (position + 1)) :=
      fun c hc => hchars c (List.mem_of_mem_drop hc)
    obtain rfl := h.unique (.excess d htext hbehind)
    obtain ⟨rfl, rfl⟩ := Prod.mk.inj (Option.some.inj hplace)
    rfl

theorem expectedToken_iff (h : Unreadable chars e) (hplace : e.place? = some (found, position)) :
    e = .expectedToken ')' found position ↔ LacksClosing chars position := by
  cases h with
  | foreign => exact nomatch hplace
  | captures => exact nomatch hplace
  | broken b htext hbehind hrefuses =>
      rw [Gap.place?_refusal] at hplace
      obtain ⟨rfl, rfl⟩ := Prod.mk.inj (Option.some.inj hplace)
      rw [htext, b.lacksClosing_iff hbehind hrefuses]
      cases b.gap <;> simp [Gap.refusal]
  | excess d htext hbehind =>
      obtain ⟨rfl, rfl⟩ := Prod.mk.inj (Option.some.inj hplace)
      refine iff_of_false (fun he => by cases he) ?_
      rw [LacksClosing, htext, List.take_left]
      rintro (⟨before, digit, -, hchars⟩ | ⟨hlength, -⟩)
      · have hmarks := d.behindMarks
        rw [hchars, List.append_cons] at hmarks
        exact absurd hmarks.behind (by simp)
      · simp at hlength

theorem expected_eq {expected : Char} (h : Unreadable chars e)
    (he : e = .expectedToken expected found position) : expected = ')' := by
  cases h with
  | broken b =>
      cases hgap : b.gap with
      | item | kind =>
          rw [hgap] at he
          exact nomatch he
      | closing | linkClosing =>
          rw [hgap] at he
          exact (SyntaxError.expectedToken.inj he).1.symm
  | foreign | excess | captures => exact nomatch he

end Unreadable

namespace Pattern

variable {text : String} {e : SyntaxError}

/-- What kind of error it is. A character outside of the alphabet is reported before anything else,
    the first one of them. Otherwise too many captures are reported for a text that is derived.
    Otherwise the error has a position: there stands a parenthesis that closes nothing, or there
    the end of a group is missing, or neither, and then the token is unexpected. -/
theorem parse_error_kind (h : parse text = .error e) :
    ((∃ c position, e = .invalidCharacter c position) ↔ ∃ c ∈ text.toList, ¬ Token.Belongs c)
      ∧ (∀ c position, e = .invalidCharacter c position → ∃ before behind,
        text.toList = before ++ c :: behind ∧ (∀ x ∈ before, Token.Belongs x)
          ∧ ¬ Token.Belongs c ∧ position = before.length)
      ∧ ((∀ c ∈ text.toList, Token.Belongs c) →
        (∀ count, e = .tooManyCaptures count ↔ Derivable text.toList
          ∧ count = (captureOpenings text.toList).length ∧ 9 < count)
        ∧ ((∀ count, e ≠ .tooManyCaptures count) → ∃ found position,
          e.place? = some (found, position)
            ∧ (e = .expectedEnd found position ↔ ClosesNothing text.toList position)
            ∧ ((∃ expected, e = .expectedToken expected found position)
              ↔ LacksClosing text.toList position)
            ∧ (∀ expected, e = .expectedToken expected found position → expected = ')')
            ∧ (e = .unexpectedToken found position ↔ ¬ ClosesNothing text.toList position
              ∧ ¬ LacksClosing text.toList position))) := by
  have hunreadable := parse_eq_error_iff.1 h
  refine ⟨hunreadable.exists_invalidCharacter_iff, ?_, ?_⟩
  · intro c position
    exact hunreadable.invalidCharacter_iff.1
  intro hchars
  refine ⟨fun count => hunreadable.tooManyCaptures_iff, fun hfew => ?_⟩
  obtain ⟨found, position, hplace⟩ : ∃ found position, e.place? = some (found, position) := by
    cases e with
    | invalidCharacter c position =>
        obtain ⟨x, hx, hforeign⟩ := hunreadable.exists_invalidCharacter_iff.1 ⟨c, position, rfl⟩
        exact absurd (hchars x hx) hforeign
    | tooManyCaptures count => exact absurd rfl (hfew count)
    | unexpectedToken | expectedToken | expectedEnd => exact ⟨_, _, rfl⟩
  have hend := hunreadable.expectedEnd_iff hplace
  have htoken := hunreadable.expectedToken_iff hplace
  have hexpected (expected : Char) (he : e = .expectedToken expected found position) :
      expected = ')' := hunreadable.expected_eq he
  refine ⟨found, position, hplace, hend, ?_, hexpected, ?_⟩
  · rw [← htoken]
    constructor
    · rintro ⟨expected, he⟩
      obtain rfl := hexpected expected he
      exact he
    · exact fun he => ⟨')', he⟩
  · rw [← hend, ← htoken]
    constructor
    · rintro rfl
      exact ⟨nofun, nofun⟩
    · rintro ⟨hnotEnd, hnotToken⟩
      cases e with
      | unexpectedToken =>
          cases hplace
          rfl
      | expectedToken expected =>
          cases hplace
          rw [hexpected expected rfl] at hnotToken
          exact absurd rfl hnotToken
      | expectedEnd =>
          cases hplace
          exact absurd rfl hnotEnd
      | invalidCharacter | tooManyCaptures => exact nomatch hplace

/-- In `a)*b#` the parenthesis closes nothing, but the last character is reported. Without it the
    parenthesis is. The groups of `(?:(a` are open at the end. -/
theorem parse_error_kind_examples :
    (parse "a)*b#" = .error (.invalidCharacter '#' 4)
      ∧ ∃ c ∈ "a)*b#".toList, ¬ Token.Belongs c)
    ∧ (parse "a)*b" = .error (.expectedEnd .rightParen 1) ∧ ClosesNothing "a)*b".toList 1)
    ∧ parse "(?:(a" = .error (.expectedToken ')' .endOfInput 5)
      ∧ LacksClosing "(?:(a".toList 5 := by
  have hforeign : parse "a)*b#" = .error (.invalidCharacter '#' 4) := by cbv
  have hend : parse "a)*b" = .error (.expectedEnd .rightParen 1) := by cbv
  have htoken : parse "(?:(a" = .error (.expectedToken ')' .endOfInput 5) := by cbv
  refine ⟨⟨hforeign, (parse_error_kind hforeign).1.1 ⟨_, _, rfl⟩⟩, ⟨hend, ?_⟩, htoken, ?_⟩
  · obtain ⟨-, hplaced⟩ := (parse_error_kind hend).2.2 (by simp [Token.Belongs])
    obtain ⟨_, _, hplace, hcloses, -⟩ := hplaced (by simp)
    cases hplace
    exact hcloses.1 rfl
  · obtain ⟨-, hplaced⟩ := (parse_error_kind htoken).2.2 (by simp [Token.Belongs])
    obtain ⟨_, _, hplace, -, hlacks, -⟩ := hplaced (by simp)
    cases hplace
    exact hlacks.1 ⟨_, rfl⟩

end Pattern

end PatternGrammar
