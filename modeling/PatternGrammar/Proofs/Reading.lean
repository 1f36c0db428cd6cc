import PatternGrammar.Proofs.Calls
import PatternGrammar.Proofs.Scanning

set_option autoImplicit false

/-! # Reading what is derived

Wherever the tokens of a derivation follow, whatever comes behind them, the reader gets to the end
of them with the pattern of the derivation and goes on from there (`Derivation.isRead`). -/

namespace PatternGrammar

/-! ## The tokens of a derivation -/

/-- The tokens that a form can begin with. -/
inductive Token.Begins : Token → Prop where
  | leftParen : Begins .leftParen
  | symbol (c : Char) : Begins (.symbol c)

theorem Token.Begins.ne_star {token : Token} (h : token.Begins) : token ≠ .star := by
  cases h <;> simp

theorem Token.Begins.ne_question {token : Token} (h : token.Begins) : token ≠ .question := by
  cases h <;> simp

namespace Derivation

variable {form : Form}

theorem inNotation_chars (d : Derivation form) : Token.InNotation d.chars := by
  induction d with
  | single first ih | start first ih => exact ih
  | item inner ih => exact ih
  | bar before last ihb ihl | juxtapose before last ihb ihl => simp [chars, Token.ofChar?, ihb, ihl]
  | starred before ih => simp [chars, Token.ofChar?, ih]
  | group body ih | lookahead body ih | capture body ih => simp [chars, Token.ofChar?, ih]
  | link digit isDigit =>
      simp only [chars, Token.inNotation_cons, Token.ofChar?_of_isDigit isDigit]
      exact ⟨rfl, rfl, rfl, rfl, Token.inNotation_nil⟩
  | symbol c isAlphanum => simp [chars, Token.ofChar?_of_isAlphanum isAlphanum]

/-- The tokens of the text that is derived. -/
def tokens (d : Derivation form) : List Token :=
  Token.ofChars d.chars

@[simp] theorem tokens_single (first : Derivation .concatenation) :
    (single first).tokens = first.tokens := rfl

@[simp] theorem tokens_bar (before : Derivation .alternative) (last : Derivation .concatenation) :
    (bar before last).tokens = before.tokens ++ .bar :: last.tokens :=
  Token.ofChars_append ..

@[simp] theorem tokens_start (first : Derivation .iteration) :
    (start first).tokens = first.tokens := rfl

@[simp] theorem tokens_juxtapose (before : Derivation .concatenation)
    (last : Derivation .iteration) :
    (juxtapose before last).tokens = before.tokens ++ last.tokens :=
  Token.ofChars_append ..

@[simp] theorem tokens_item (inner : Derivation .atom) : (item inner).tokens = inner.tokens := rfl

@[simp] theorem tokens_starred (before : Derivation .iteration) :
    (starred before).tokens = before.tokens ++ [.star] :=
  Token.ofChars_append ..

@[simp] theorem tokens_group (body : Derivation .alternative) :
    (group body).tokens = .leftParen :: .question :: .colon :: (body.tokens ++ [.rightParen]) :=
  Token.ofChars_specialGroup rfl body.chars

@[simp] theorem tokens_lookahead (body : Derivation .alternative) :
    (lookahead body).tokens
      = .leftParen :: .question :: .equals :: (body.tokens ++ [.rightParen]) :=
  Token.ofChars_specialGroup rfl body.chars

@[simp] theorem tokens_link (digit : Char) (isDigit : digit.isDigit) :
    (link digit isDigit).tokens = [.leftParen, .question, .symbol digit, .rightParen] := by
  rw [tokens, chars, Token.ofChars_cons rfl, Token.ofChars_cons rfl,
    Token.ofChars_cons (Token.ofChar?_of_isDigit isDigit)]
  rfl

@[simp] theorem tokens_capture (body : Derivation .alternative) :
    (capture body).tokens = .leftParen :: (body.tokens ++ [.rightParen]) :=
  Token.ofChars_captureGroup body.chars

@[simp] theorem tokens_symbol (c : Char) (isAlphanum : c.isAlphanum) :
    (symbol c isAlphanum).tokens = [.symbol c] := by
  rw [tokens, chars, Token.ofChars_cons (Token.ofChar?_of_isAlphanum isAlphanum)]
  rfl

/-- No form begins with a mark other than a left parenthesis. -/
theorem tokens_eq_cons (d : Derivation form) :
    ∃ first rest, d.tokens = first :: rest ∧ first.Begins := by
  induction d with
  | single first ih | start first ih => exact ih
  | item inner ih => exact ih
  | bar before last ih _ =>
      obtain ⟨first, rest, htokens, hfirst⟩ := ih
      exact ⟨first, rest ++ .bar :: last.tokens, by simp [htokens], hfirst⟩
  | juxtapose before last ih _ =>
      obtain ⟨first, rest, htokens, hfirst⟩ := ih
      exact ⟨first, rest ++ last.tokens, by simp [htokens], hfirst⟩
  | starred before ih =>
      obtain ⟨first, rest, htokens, hfirst⟩ := ih
      exact ⟨first, rest ++ [.star], by simp [htokens], hfirst⟩
  | group body => exact ⟨_, _, tokens_group body, .leftParen⟩
  | lookahead body => exact ⟨_, _, tokens_lookahead body, .leftParen⟩
  | link digit isDigit => exact ⟨_, _, tokens_link digit isDigit, .leftParen⟩
  | capture body => exact ⟨_, _, tokens_capture body, .leftParen⟩
  | symbol c isAlphanum => exact ⟨_, _, tokens_symbol c isAlphanum, .symbol c⟩

theorem length_tokens_pos (d : Derivation form) : 0 < d.tokens.length := by
  obtain ⟨first, rest, htokens, -⟩ := d.tokens_eq_cons
  simp [htokens]

end Derivation

theorem Reader.not_stops_of_begins {token : Token} (h : token.Begins) : ¬ Stops token := by
  cases h <;> simp [Stops]

/-- The token behind a text of this form does not belong to a last part of it. A token that
    prolongs the form itself is not excluded. -/
def Form.Ends (next : Token) : Form → Prop
  | .alternative => Reader.Stops next
  | .concatenation => next ≠ .star
  | .iteration | .atom => True

/-! ## What reading a derivation yields -/

namespace Derivation

variable {form : Form} {r : Reader} {rest : List Token}

/-- The reading of a derivation at a place where its tokens follow. -/
def reading (d : Derivation form) (h : r.rest = d.tokens ++ rest) : Reading r where
  pattern := d.pattern r.opened
  next := ⟨rest, r.offset + d.tokens.length, r.opened + d.captures⟩
  progress := by
    rw [h, List.length_append]
    exact Nat.lt_add_of_pos_left d.length_tokens_pos

/-- A reading is that of a derivation if it ends at the same place with the same pattern. -/
theorem eq_reading {d : Derivation form} (h : r.rest = d.tokens ++ rest) {done : Reading r}
    (hpattern : done.pattern = d.pattern r.opened) (hrest : done.next.rest = rest)
    (hoffset : done.next.offset = r.offset + d.tokens.length)
    (hopened : done.next.opened = r.opened + d.captures) : done = d.reading h := by
  obtain ⟨pattern, ⟨_, offset, opened⟩, progress⟩ := done
  subst hpattern hrest hoffset hopened
  rfl

/-- The part before the bar, then the part behind it, are read as one alternation. -/
theorem extend_bar (before : Derivation .alternative) (last : Derivation .concatenation)
    {tail : List Token} (h : r.rest = before.tokens ++ .bar :: tail)
    (hlast : ((before.reading h).next.skip 1).rest = last.tokens ++ rest)
    (hbar : r.rest = (bar before last).tokens ++ rest)
    (further : (last.reading hlast).next.rest.length ≤ (before.reading h).next.rest.length) :
    (before.reading h).extend (.alt (before.reading h).pattern (last.reading hlast).pattern)
      (last.reading hlast).next further = (bar before last).reading hbar :=
  eq_reading hbar rfl rfl (by simp [Reading.extend, reading, Reader.skip]; omega)
    (Nat.add_assoc ..)

theorem extend_juxtapose (before : Derivation .concatenation) (last : Derivation .iteration)
    {tail : List Token} (h : r.rest = before.tokens ++ tail)
    (hlast : (before.reading h).next.rest = last.tokens ++ rest)
    (hjuxtapose : r.rest = (juxtapose before last).tokens ++ rest)
    (further : (last.reading hlast).next.rest.length ≤ (before.reading h).next.rest.length) :
    (before.reading h).extend (.concat (before.reading h).pattern (last.reading hlast).pattern)
      (last.reading hlast).next further = (juxtapose before last).reading hjuxtapose :=
  eq_reading hjuxtapose rfl rfl (by simp [Reading.extend, reading]; omega) (Nat.add_assoc ..)

/-- The reading of a group of any kind around `body`, once the body is read. -/
theorem bind_close (body : Derivation .alternative) {inner : Reader}
    (hbody : inner.rest = body.tokens ++ .rightParen :: rest)
    (hread : inner.alternative = Reader.moreAlternatives (body.reading hbody))
    {around : Pattern → Pattern} {later : inner.rest.length ≤ r.rest.length}
    {d : Derivation .atom} (h : r.rest = d.tokens ++ rest)
    (hpattern : around (body.pattern inner.opened) = d.pattern r.opened)
    (hoffset : inner.offset + body.tokens.length + 1 = r.offset + d.tokens.length)
    (hopened : inner.opened + body.captures = r.opened + d.captures) :
    (inner.alternative.bind fun found => (found.within around later).close)
      = .ok (d.reading h) := by
  have hparen : (body.reading hbody).next.current = .rightParen := rfl
  have hclose : ((body.reading hbody).within around later).close = _ :=
    Reading.close_of_rightParen hparen
  rw [hread, Reader.moreAlternatives_stop (by rw [hparen]; decide)]
  exact hclose.trans (congrArg Except.ok (eq_reading h hpattern rfl hoffset hopened))

/-- Wherever the tokens of the derivation follow, the reader gets to the end of them and goes on. -/
def IsRead (d : Derivation form) : Prop :=
  ∀ (r : Reader) (rest : List Token) (h : r.rest = d.tokens ++ rest),
    form.Ends (d.reading h).next.current → r.read form = Reader.resume (d.reading h) form

theorem isRead_single {first : Derivation .concatenation} (hfirst : first.IsRead) :
    (single first).IsRead := by
  intro r rest h hends
  have hstop : Reader.Stops (first.reading h).next.current := hends
  calc r.alternative
    _ = r.concatenation.bind Reader.moreAlternatives := r.alternative_eq
    _ = (Reader.moreIterations (first.reading h)).bind Reader.moreAlternatives :=
        congrArg (Except.bind · _) (hfirst r rest h hstop.ne_star)
    _ = Reader.moreAlternatives (first.reading h) := by
        rw [Reader.moreIterations_stop hstop]
        rfl

theorem isRead_bar {before : Derivation .alternative} {last : Derivation .concatenation}
    (hbefore : before.IsRead) (hlast : last.IsRead) : (bar before last).IsRead := by
  intro r rest h hends
  have h₁ : r.rest = before.tokens ++ .bar :: (last.tokens ++ rest) := by simp [h]
  have h₂ : ((before.reading h₁).next.skip 1).rest = last.tokens ++ rest := rfl
  have hstop : Reader.Stops (last.reading h₂).next.current := hends
  have hread : Reader.concatenation _ = _ := hlast _ rest h₂ hstop.ne_star
  calc r.alternative
    -- The bar ends the last concatenation of `before`, and only then the loop sees it.
    _ = Reader.moreAlternatives (before.reading h₁) := hbefore r _ h₁ (.inl rfl)
    _ = Reader.moreAlternatives ((bar before last).reading h) := by
        rw [Reader.moreAlternatives_bar rfl, hread, Reader.resume,
          Reader.moreIterations_stop hstop, ← extend_bar before last h₁ h₂]
        rfl

theorem isRead_start {first : Derivation .iteration} (hfirst : first.IsRead) :
    (start first).IsRead := by
  intro r rest h hends
  have h₁ : r.rest = first.tokens ++ rest := h
  have hnext : (first.reading h₁).next.current ≠ .star := hends
  calc r.concatenation
    _ = r.iteration.bind Reader.moreIterations := r.concatenation_eq
    _ = Reader.moreIterations (first.reading h₁).stars :=
        congrArg (Except.bind · _) (hfirst r rest h₁ trivial)
    _ = Reader.moreIterations (first.reading h₁) := by rw [Reading.stars_stop hnext]

theorem isRead_juxtapose {before : Derivation .concatenation} {last : Derivation .iteration}
    (hbefore : before.IsRead) (hlast : last.IsRead) : (juxtapose before last).IsRead := by
  intro r rest h hends
  have h₁ : r.rest = before.tokens ++ (last.tokens ++ rest) := by simp [h]
  have h₂ : (before.reading h₁).next.rest = last.tokens ++ rest := rfl
  have hnext : (last.reading h₂).next.current ≠ .star := hends
  have hread : Reader.iteration _ = _ := hlast _ rest h₂ trivial
  have hbegins : (before.reading h₁).next.current.Begins := by
    obtain ⟨first, behind, htokens, hfirst⟩ := last.tokens_eq_cons
    simpa [reading, Reader.current, htokens] using hfirst
  calc r.concatenation
    _ = Reader.moreIterations (before.reading h₁) := hbefore r _ h₁ hbegins.ne_star
    _ = Reader.moreIterations ((juxtapose before last).reading h) := by
        rw [Reader.moreIterations_go (Reader.not_stops_of_begins hbegins), hread, Reader.resume,
          Reading.stars_stop hnext, ← extend_juxtapose before last h₁ h₂]
        rfl

theorem isRead_item {inner : Derivation .atom} (hinner : inner.IsRead) : (item inner).IsRead := by
  intro r rest h _
  calc r.iteration
    _ = r.atom.bind fun inner => .ok inner.stars := r.iteration_eq
    _ = .ok (inner.reading h).stars := congrArg (Except.bind · _) (hinner r rest h trivial)

theorem isRead_starred {before : Derivation .iteration} (hbefore : before.IsRead) :
    (starred before).IsRead := by
  intro r rest h _
  have h₁ : r.rest = before.tokens ++ .star :: rest := by simp [h]
  have hstar : (before.reading h₁).extend (.star (before.reading h₁).pattern)
      ((before.reading h₁).next.skip 1) ((before.reading h₁).next.length_skip_le 1)
      = (starred before).reading h :=
    eq_reading h rfl rfl (by simp [Reading.extend, reading, Reader.skip]; omega) rfl
  calc r.iteration
    _ = .ok (before.reading h₁).stars := hbefore r _ h₁ trivial
    _ = .ok ((starred before).reading h).stars := by rw [Reading.stars_of_star rfl, hstar]

theorem isRead_group {body : Derivation .alternative} (hbody : body.IsRead) :
    (group body).IsRead := by
  intro r rest h _
  have h₁ : (r.skip 3).rest = body.tokens ++ .rightParen :: rest := by simp [Reader.skip, h]
  rw [Reader.read, Reader.atom_group (by rw [h, tokens_group]; rfl)]
  exact bind_close body h₁ (hbody _ _ h₁ (.inr (.inl rfl))) h rfl
    (by simp [Reader.skip]; omega) rfl

theorem isRead_lookahead {body : Derivation .alternative} (hbody : body.IsRead) :
    (lookahead body).IsRead := by
  intro r rest h _
  have h₁ : (r.skip 3).rest = body.tokens ++ .rightParen :: rest := by simp [Reader.skip, h]
  rw [Reader.read, Reader.atom_lookahead (by rw [h, tokens_lookahead]; rfl)]
  exact bind_close body h₁ (hbody _ _ h₁ (.inr (.inl rfl))) h rfl
    (by simp [Reader.skip]; omega) rfl

theorem isRead_capture {body : Derivation .alternative} (hbody : body.IsRead) :
    (capture body).IsRead := by
  intro r rest h _
  have h₁ : r.openCapture.rest = body.tokens ++ .rightParen :: rest := by
    simp [Reader.openCapture, Reader.openAs, Reader.skip, h]
  have hbegins : r.openCapture.current.Begins := by
    obtain ⟨first, behind, htokens, hfirst⟩ := body.tokens_eq_cons
    simpa [Reader.current, h₁, htokens] using hfirst
  rw [Reader.read, Reader.atom_capture (by rw [h, tokens_capture]; rfl) hbegins.ne_question]
  exact bind_close body h₁ (hbody _ _ h₁ (.inr (.inl rfl))) h rfl
    (by simp [Reader.openCapture, Reader.openAs, Reader.skip]; omega)
    (by simp [Reader.openCapture, Reader.openAs, Reader.skip, captures]; omega)

theorem isRead_link (digit : Char) (isDigit : digit.isDigit) : (link digit isDigit).IsRead := by
  intro r rest h _
  have hindex : (Token.symbol digit).digit? = some (digit.toNat - '0'.toNat) := if_pos isDigit
  have hrest : r.rest = .leftParen :: .question :: .symbol digit :: .rightParen :: rest := by
    rw [h, tokens_link]
    rfl
  have hparen : (r.skip 3).current = .rightParen := by simp [Reader.skip, Reader.current, hrest]
  rw [Reader.read, Reader.atom_link hrest hindex,
    Reading.close_of_rightParen hparen]
  refine congrArg Except.ok (eq_reading h rfl ?_ ?_ rfl)
  · simp [Reading.extend, Reader.skip, hrest]
  · simp [Reading.extend, Reader.skip]

theorem isRead_symbol (c : Char) (isAlphanum : c.isAlphanum) : (symbol c isAlphanum).IsRead := by
  intro r rest h _
  have hrest : r.rest = .symbol c :: rest := by
    rw [h, tokens_symbol]
    rfl
  rw [Reader.read, Reader.atom_symbol hrest]
  refine congrArg Except.ok (eq_reading h rfl ?_ ?_ rfl)
  · simp [Reader.skip, hrest]
  · simp [Reader.skip]

/-- Whatever follows on the tokens of a derivation, the derivation is what is read of them. -/
theorem isRead (d : Derivation form) : d.IsRead := by
  induction d with
  | single first ih => exact isRead_single ih
  | bar before last ihb ihl => exact isRead_bar ihb ihl
  | start first ih => exact isRead_start ih
  | juxtapose before last ihb ihl => exact isRead_juxtapose ihb ihl
  | item inner ih => exact isRead_item ih
  | starred before ih => exact isRead_starred ih
  | group body ih => exact isRead_group ih
  | lookahead body ih => exact isRead_lookahead ih
  | link digit isDigit => exact isRead_link digit isDigit
  | capture body ih => exact isRead_capture ih
  | symbol c isAlphanum => exact isRead_symbol c isAlphanum

end Derivation

end PatternGrammar
