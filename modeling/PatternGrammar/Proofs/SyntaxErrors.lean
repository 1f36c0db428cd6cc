import Mathlib
import PatternGrammar.Proofs.BreakingOff

set_option autoImplicit false

/-! # Errors in a text

`Unreadable` lists the ways in which a text is no accepted pattern, each with its error, and
`Pattern.parse_eq_error_iff` says that these are the errors of the reader. It follows that an error
about a token is reported at the first character with which no pattern goes on
(`Pattern.parse_error_place`). -/

namespace PatternGrammar

theorem Gap.place?_refusal (gap : Gap) (found : Token) (position : Nat) :
    (gap.refusal found position).place? = some (found, position) := by
  cases gap <;> rfl

/-- The text is derived in the notation, however many captures it opens. -/
def Derivable (chars : List Char) : Prop :=
  ∃ d : Derivation .alternative, d.chars = chars

/-! ## The ways in which a text is refused -/

/-- The ways in which a text is no accepted pattern, each with its error: a character outside of
    the notation, a derivation that breaks off, a parenthesis that closes nothing, and too many
    captures. -/
inductive Unreadable (text : List Char) : SyntaxError → Prop where
  | foreign {before behind : List Char} {c : Char} (htext : text = before ++ c :: behind)
      (hbefore : Token.InNotation before) (hc : Token.ofChar? c = none) :
      Unreadable text (.invalidCharacter c before.length)
  | broken (b : Beginning .alternative) {behind : List Char} (htext : text = b.chars ++ behind)
      (hbehind : Token.InNotation behind) (hrefuses : b.Refuses (Token.first behind)) :
      Unreadable text (b.gap.refusal (Token.first behind) b.chars.length)
  | excess (d : Derivation .alternative) {behind : List Char}
      (htext : text = d.chars ++ ')' :: behind) (hbehind : Token.InNotation behind) :
      Unreadable text (.expectedEnd .rightParen d.chars.length)
  | captures (d : Derivation .alternative) (htext : text = d.chars) (hmany : 9 < d.captures) :
      Unreadable text (.tooManyCaptures d.captures)

theorem Unreadable.inNotation {text : List Char} {e : SyntaxError} (h : Unreadable text e)
    (he : ∀ c position, e ≠ .invalidCharacter c position) : Token.InNotation text := by
  cases h with
  | foreign => exact absurd rfl (he _ _)
  | broken b htext hbehind => exact htext ▸ Token.inNotation_append.2 ⟨b.inNotation_chars, hbehind⟩
  | excess d htext hbehind =>
      rw [htext, Token.inNotation_append, Token.inNotation_cons]
      exact ⟨d.inNotation_chars, rfl, hbehind⟩
  | captures d htext => exact htext ▸ d.inNotation_chars

namespace Pattern

variable {text : String} {e : SyntaxError}

/-- The place in front of the whole text. -/
def atStart (text : String) : Reader :=
  ⟨Token.ofChars text.toList ++ [.endOfInput], 0, 0⟩

theorem parse_of_inNotation (h : Token.InNotation text.toList) :
    parse text = (Reader.alternative (atStart text)).bind finish := by
  have hscan : Token.scan text = .ok (Token.ofChars text.toList ++ [.endOfInput]) :=
    Token.scanFrom_eq_ok_iff.2 ⟨h, rfl⟩
  rw [parse_eq_bind, hscan]
  rfl

theorem alphanumeric_atStart (text : String) : Alphanumeric (atStart text).rest := by
  intro c hc
  exact Token.isAlphanum_of_mem_ofChars (by simpa [atStart] using hc)

/-- The place behind a derivation at the beginning of the text is its length. -/
theorem offset_reading_atStart {form : Form} (d : Derivation form) {rest : List Token}
    (hrest : (atStart text).rest = d.tokens ++ rest) :
    (d.reading hrest).next.offset = d.chars.length := by
  rw [← Token.length_ofChars d.inNotation_chars]
  exact Nat.zero_add _

theorem finish_of_rightParen {start : Reader} {whole : Reading start}
    (h : whole.next.current = .rightParen) :
    finish whole = .error (.expectedEnd .rightParen whole.next.offset) := by
  rw [finish, h]
  rfl

/-! ### Every error is one of these -/

theorem unreadable_of_alternative (hchars : Token.InNotation text.toList)
    (h : Reader.alternative (atStart text) = .error e) : Unreadable text.toList e := by
  obtain ⟨b, rest, hrest, hrefuses, rfl⟩ :=
    (Reader.alternative_eq_error_iff (alphanumeric_atStart text)).1 h
  obtain ⟨behind, htext, rfl⟩ := Token.exists_append_of_ofChars hchars b.inNotation_chars hrest
  rw [htext, Token.inNotation_append] at hchars
  rw [Token.headD_ofChars_append hchars.2] at hrefuses ⊢
  rw [Beginning.tokens, Token.length_ofChars b.inNotation_chars, atStart, Nat.zero_add]
  exact .broken b htext hchars.2 hrefuses

theorem unreadable_of_finish (hchars : Token.InNotation text.toList)
    {whole : Reading (atStart text)} (hread : Reader.alternative (atStart text) = .ok whole)
    (h : finish whole = .error e) : Unreadable text.toList e := by
  have hparse : parse text = .error e := by
    rw [parse_of_inNotation hchars, hread]
    exact h
  have hends := Counting.ends_of_alternative hread
  obtain ⟨d, rest, hrest, rfl⟩ :=
    Reader.readsOnly _ .alternative (alphanumeric_atStart text) whole hread
  obtain ⟨behind, htext, rfl⟩ := Token.exists_append_of_ofChars hchars d.inNotation_chars hrest
  have hbehind : Token.InNotation behind := by
    rw [htext, Token.inNotation_append] at hchars
    exact hchars.2
  have hcurrent : (d.reading hrest).next.current = Token.first behind :=
    Token.headD_ofChars_append hbehind
  rw [hcurrent] at hends
  rcases hends with hparen | hend
  · obtain ⟨more, rfl⟩ := Token.exists_cons_of_first hbehind (congrArg Token.char? hparen)
    rw [finish_of_rightParen (hcurrent.trans hparen), offset_reading_atStart] at h
    obtain rfl := Except.error.inj h
    exact .excess d htext (Token.inNotation_cons.1 hbehind).2
  · -- The whole text was read, so it can only have too many captures.
    obtain rfl := Token.eq_nil_of_first hbehind hend
    rw [List.append_nil] at htext
    rw [parse_of_derivation htext.symm] at hparse
    split at hparse
    · next hmany =>
      obtain rfl := Except.error.inj hparse
      exact .captures d htext hmany
    · exact nomatch hparse

theorem unreadable_of_parse (h : parse text = .error e) : Unreadable text.toList e := by
  rw [parse_eq_bind] at h
  rcases Reader.error_of_bind h with hscan | ⟨tokens, hscan, h⟩
  · obtain ⟨before, c, behind, htext, hbefore, hc, rfl⟩ := Token.scanFrom_eq_error_iff.1 hscan
    rw [Nat.zero_add]
    exact .foreign htext hbefore hc
  · obtain ⟨hchars, rfl⟩ := Token.scanFrom_eq_ok_iff.1 hscan
    rcases Reader.error_of_bind h with hread | ⟨whole, hread, h⟩
    · exact unreadable_of_alternative hchars hread
    · exact unreadable_of_finish hchars hread h

/-! ### Each of these is an error -/

theorem parse_of_foreign {before behind : List Char} {c : Char}
    (htext : text.toList = before ++ c :: behind) (hbefore : Token.InNotation before)
    (hc : Token.ofChar? c = none) :
    parse text = .error (.invalidCharacter c before.length) := by
  have hscan : Token.scanFrom 0 text.toList = .error _ :=
    Token.scanFrom_eq_error_iff.2 ⟨_, _, _, htext, hbefore, hc, rfl⟩
  rw [parse_eq_bind, Token.scan, hscan, Nat.zero_add]
  rfl

theorem parse_of_broken (b : Beginning .alternative) {behind : List Char}
    (htext : text.toList = b.chars ++ behind) (hbehind : Token.InNotation behind)
    (hrefuses : b.Refuses (Token.first behind)) :
    parse text = .error (b.gap.refusal (Token.first behind) b.chars.length) := by
  have hchars : Token.InNotation text.toList :=
    htext ▸ Token.inNotation_append.2 ⟨b.inNotation_chars, hbehind⟩
  have hrest : (atStart text).rest
      = b.tokens ++ (Token.ofChars behind ++ [Token.endOfInput]) := by
    rw [atStart, htext, Token.ofChars_append, List.append_assoc]
    rfl
  rw [← Token.headD_ofChars_append hbehind] at hrefuses ⊢
  have hread : Reader.alternative (atStart text) = .error _ :=
    (Reader.alternative_eq_error_iff (alphanumeric_atStart text)).2
      ⟨b, _, hrest, hrefuses, rfl⟩
  rw [parse_of_inNotation hchars, hread, Beginning.tokens,
    Token.length_ofChars b.inNotation_chars, atStart, Nat.zero_add]
  rfl

theorem parse_of_excess (d : Derivation .alternative) {behind : List Char}
    (htext : text.toList = d.chars ++ ')' :: behind) (hbehind : Token.InNotation behind) :
    parse text = .error (.expectedEnd .rightParen d.chars.length) := by
  have hchars : Token.InNotation text.toList := by
    rw [htext, Token.inNotation_append, Token.inNotation_cons]
    exact ⟨d.inNotation_chars, rfl, hbehind⟩
  have hrest : (atStart text).rest
      = d.tokens ++ .rightParen :: (Token.ofChars behind ++ [.endOfInput]) := by
    rw [atStart, htext, Token.ofChars_append, Token.ofChars_cons rfl, List.append_assoc]
    rfl
  have hparen : (d.reading hrest).next.current = .rightParen := rfl
  have hread : Reader.alternative _ = Reader.moreAlternatives (d.reading hrest) :=
    d.isRead _ _ hrest (.inr (.inl hparen))
  rw [parse_of_inNotation hchars, hread, Reader.moreAlternatives_stop (by rw [hparen]; decide),
    ← offset_reading_atStart d hrest]
  exact finish_of_rightParen hparen

theorem parse_of_unreadable (h : Unreadable text.toList e) : parse text = .error e := by
  cases h with
  | foreign htext hbefore hc => exact parse_of_foreign htext hbefore hc
  | broken b htext hbehind hrefuses => exact parse_of_broken b htext hbehind hrefuses
  | excess d htext hbehind => exact parse_of_excess d htext hbehind
  | captures d htext hmany =>
      rw [parse_of_derivation htext.symm]
      exact if_pos hmany

/-- Reading fails in the ways that are listed and in no other. -/
theorem parse_eq_error_iff : parse text = .error e ↔ Unreadable text.toList e :=
  ⟨unreadable_of_parse, parse_of_unreadable⟩

theorem place?_of_derivable (htext : Derivable text.toList) (h : parse text = .error e) :
    e.place? = none := by
  obtain ⟨d, hd⟩ := htext
  rw [parse_of_derivation hd] at h
  split at h
  · obtain rfl := Except.error.inj h
    rfl
  · exact nomatch h

end Pattern

/-! ## Where an error is reported -/

theorem Unreadable.place?_eq_none {chars : List Char} {e : SyntaxError} (h : Unreadable chars e)
    (hchars : Derivable chars) : e.place? = none := by
  have heq : (String.ofList chars).toList = chars := String.toList_ofList
  rw [← heq] at h hchars
  exact Pattern.place?_of_derivable hchars (Pattern.parse_eq_error_iff.2 h)

/-- An error about a token does not depend on what is behind this token. -/
theorem Unreadable.congr {chars chars' : List Char} {e : SyntaxError} {found : Token}
    {position : Nat} (h : Unreadable chars e) (hplace : e.place? = some (found, position))
    (hchars' : Token.InNotation chars')
    (htake : chars'.take (position + 1) = chars.take (position + 1)) : Unreadable chars' e := by
  have hdrop : chars' = chars'.take position ++ chars'.drop position :=
    (List.take_append_drop ..).symm
  have hbefore : chars'.take position = chars.take position := by
    have := congrArg (List.take position) htake
    simpa [List.take_take] using this
  have hnext : (chars'.drop position).head? = (chars.drop position).head? := by
    have := congrArg (·[position]?) htake
    simpa [List.head?_drop] using this
  have hafter : Token.InNotation (chars'.drop position) :=
    fun c hc => hchars' c (List.mem_of_mem_drop hc)
  rw [hbefore] at hdrop
  cases h with
  | foreign => exact nomatch hplace
  | captures => exact nomatch hplace
  | @broken b behind htext hbehind hrefuses =>
      rw [Gap.place?_refusal] at hplace
      obtain ⟨rfl, rfl⟩ := Prod.mk.inj (Option.some.inj hplace)
      rw [htext, List.take_left] at hdrop
      have hfirst : Token.first (chars'.drop b.chars.length) = Token.first behind := by
        rw [Token.first, hnext, htext, List.drop_left]
        rfl
      rw [← hfirst] at hrefuses ⊢
      exact .broken b hdrop hafter hrefuses
  | @excess d behind htext hbehind =>
      obtain ⟨rfl, rfl⟩ := Prod.mk.inj (Option.some.inj hplace)
      rw [htext, List.take_left] at hdrop
      rw [htext, List.drop_left] at hnext
      obtain ⟨more, hmore⟩ := List.head?_eq_some_iff.1 hnext
      rw [hmore] at hdrop hafter
      exact .excess d hdrop (Token.inNotation_cons.1 hafter).2

/-- An error about a token names the token behind a beginning of a derived text. -/
theorem Unreadable.exists_beginning {chars : List Char} {e : SyntaxError} {found : Token}
    {position : Nat} (h : Unreadable chars e) (hplace : e.place? = some (found, position)) :
    ∃ before behind, chars = before ++ behind ∧ before.length = position
      ∧ Token.first behind = found ∧ Token.InNotation behind
      ∧ ∃ d : Derivation .alternative, before <+: d.chars := by
  cases h with
  | foreign => exact nomatch hplace
  | captures => exact nomatch hplace
  | broken b htext hbehind hrefuses =>
      rw [Gap.place?_refusal] at hplace
      obtain ⟨rfl, rfl⟩ := Prod.mk.inj (Option.some.inj hplace)
      refine ⟨_, _, htext, rfl, rfl, hbehind, b.completion, ?_⟩
      rw [b.chars_completion]
      exact List.prefix_append ..
  | excess d htext hbehind =>
      obtain ⟨rfl, rfl⟩ := Prod.mk.inj (Option.some.inj hplace)
      exact ⟨_, _, htext, rfl, rfl, Token.inNotation_cons.2 ⟨rfl, hbehind⟩, d, List.prefix_refl _⟩

namespace Pattern

variable {text : String} {e : SyntaxError} {found : Token} {position : Nat}

/-- An error about a token is reported at the first character with which no pattern goes on: what
    is in front of it is the beginning of a derived text, and no derived text begins as far as this
    character goes. If there is no such character, then the text breaks off. -/
theorem parse_error_place (h : parse text = .error e) (hplace : e.place? = some (found, position)) :
    position ≤ text.length
      ∧ (position < text.length →
        ∃ c, text.toList[position]? = some c ∧ Token.ofChar? c = some found)
      ∧ (position = text.length → found = .endOfInput)
      ∧ (∃ d : Derivation .alternative, text.toList.take position <+: d.chars)
      ∧ (position < text.length →
        ∀ d : Derivation .alternative, ¬ text.toList.take (position + 1) <+: d.chars)
      ∧ (position = text.length → ¬ Derivable text.toList) := by
  have hunreadable := parse_eq_error_iff.1 h
  have hchars := String.length_toList (s := text)
  obtain ⟨before, behind, htext, rfl, rfl, hbehind, hviable⟩ :=
    hunreadable.exists_beginning hplace
  have hlength : text.length = before.length + behind.length := by
    rw [← hchars, htext, List.length_append]
  refine ⟨by omega, ?_, ?_, ?_, ?_, ?_⟩
  · intro hlt
    cases behind with
    | nil => exact absurd hlt (by simp [hlength])
    | cons c more =>
        obtain ⟨token, htoken⟩ := Option.isSome_iff_exists.1 (Token.inNotation_cons.1 hbehind).1
        rw [Token.first_cons htoken]
        exact ⟨c, by simp [htext], htoken⟩
  · intro heq
    obtain rfl : behind = [] := List.eq_nil_of_length_eq_zero (by omega)
    rfl
  · rw [htext, List.take_left]
    exact hviable
  · intro hlt d hprefix
    have htake : d.chars.take (before.length + 1) = text.toList.take (before.length + 1) := by
      rw [List.prefix_iff_eq_take.1 hprefix, List.length_take, Nat.min_eq_left (by omega)]
    have hd := hunreadable.congr hplace d.inNotation_chars htake
    exact nomatch hplace.symm.trans (hd.place?_eq_none ⟨d, rfl⟩)
  · intro _ htext'
    exact nomatch hplace.symm.trans (hunreadable.place?_eq_none htext')

/-- In `(a|*b` nothing may stand between the bar and the star, and `(?:ab` breaks off. -/
theorem parse_error_place_examples :
    (parse "(a|*b" = .error (.unexpectedToken .star 3)
      ∧ (∃ d : Derivation .alternative, ['(', 'a', '|'] <+: d.chars)
      ∧ ∀ d : Derivation .alternative, ¬ ['(', 'a', '|', '*'] <+: d.chars)
    ∧ parse "(?:ab" = .error (.expectedToken ')' .endOfInput 5)
      ∧ ¬ Derivable ['(', '?', ':', 'a', 'b'] := by
  have hstar : parse "(a|*b" = .error (.unexpectedToken .star 3) := by cbv
  have hend : parse "(?:ab" = .error (.expectedToken ')' .endOfInput 5) := by cbv
  obtain ⟨-, -, -, hviable, hnot, -⟩ := parse_error_place hstar rfl
  exact ⟨⟨hstar, hviable, hnot (by decide)⟩, hend, (parse_error_place hend rfl).2.2.2.2.2 rfl⟩

end Pattern

end PatternGrammar
