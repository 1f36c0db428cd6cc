import PatternGrammar.Proofs.Beginnings
import PatternGrammar.Proofs.Parsing

set_option autoImplicit false

/-! # Where reading breaks off

Reading fails exactly if the tokens begin as a beginning does and go on with a token that this
beginning refuses (`Reader.alternative_eq_error_iff`). The error names this token, its offset and
what is missing there, so it depends on nothing behind the token. -/

namespace PatternGrammar

/-- The error at a token where something else is missing. -/
def Gap.refusal : Gap → Token → Nat → SyntaxError
  | item, found, position | kind, found, position => .unexpectedToken found position
  | closing, found, position | linkClosing, found, position => .expectedToken ')' found position

variable {form : Form} {r : Reader} {e : SyntaxError}

/-- The tokens at a place begin as `b` does and go on with one that it refuses, which is the
    error `e`. -/
def Beginning.StopsAt (b : Beginning form) (r : Reader) (e : SyntaxError) : Prop :=
  ∃ rest, r.rest = b.tokens ++ rest ∧ b.Refuses (rest.headD .endOfInput)
    ∧ e = b.gap.refusal (rest.headD .endOfInput) (r.offset + b.tokens.length)

theorem Token.begins_iff {token : Token} :
    token.Begins ↔ token = .leftParen ∨ ∃ c, token = .symbol c := by
  constructor
  · rintro (_ | c)
    · exact .inl rfl
    · exact .inr ⟨c, rfl⟩
  · rintro (rfl | ⟨c, rfl⟩)
    · exact .leftParen
    · exact .symbol c

theorem headD_append (first : List Token) (rest : List Token) :
    (first ++ rest).headD .endOfInput = first.headD (rest.headD .endOfInput) := by
  cases first <;> rfl

namespace Reader

/-! ## Places inside of a group -/

/-- The place behind the text in front of the pattern inside of a group. -/
def enter (r : Reader) : Bracket → Reader
  | .group | .lookahead => r.skip 3
  | .capture => r.openCapture

theorem rest_enter {bracket : Bracket} {rest : List Token} (h : r.rest = bracket.tokens ++ rest) :
    (r.enter bracket).rest = rest := by
  cases bracket <;> exact congrArg (List.drop _) h

theorem offset_enter (r : Reader) (bracket : Bracket) :
    (r.enter bracket).offset = r.offset + bracket.tokens.length := by
  cases bracket <;> rfl

/-- A group of any kind is read as the pattern inside and the closing parenthesis. -/
theorem exists_atom_eq {bracket : Bracket} {rest : List Token} (h : r.rest = bracket.tokens ++ rest)
    (hquestion : bracket = .capture → rest.headD .endOfInput ≠ .question) :
    ∃ (around : Pattern → Pattern) (later : (r.enter bracket).rest.length ≤ r.rest.length),
      r.atom = (r.enter bracket).alternative.bind fun body => (body.within around later).close := by
  cases bracket with
  | group => exact ⟨_, r.length_skip_le 3, atom_group h⟩
  | lookahead => exact ⟨_, r.length_skip_le 3, atom_lookahead h⟩
  | capture =>
      have hcurrent : r.openCapture.current ≠ .question := by
        rw [current, show r.openCapture.rest = rest from rest_enter h]
        exact hquestion rfl
      exact ⟨_, r.length_openCapture_le, atom_capture h hcurrent⟩

end Reader

/-! ## A beginning is not read on -/

namespace Beginning

/-- Wherever the tokens begin as `b` does and go on with one that it refuses, reading fails. -/
def IsRefused (b : Beginning form) : Prop :=
  ∀ (r : Reader) (e : SyntaxError), b.StopsAt r e → r.read form = .error e

theorem isRefused_single {first : Beginning .concatenation} (hfirst : first.IsRefused) :
    (single first).IsRefused := by
  intro r e h
  have hread : r.concatenation = .error e := hfirst r e h
  rw [Reader.read, Reader.alternative_eq, hread]
  rfl

theorem isRefused_bar {before : Derivation .alternative} {last : Beginning .concatenation}
    (hlast : last.IsRefused) : (bar before last).IsRefused := by
  rintro r e ⟨rest, h, hrefuses, rfl⟩
  have h₁ : r.rest = before.tokens ++ .bar :: (last.tokens ++ rest) := by simp [h]
  have hread : Reader.concatenation _ = .error _ :=
    hlast ((before.reading h₁).next.skip 1) _ ⟨rest, rfl, hrefuses, rfl⟩
  have hoffset : ((before.reading h₁).next.skip 1).offset + last.tokens.length
      = r.offset + (bar before last).tokens.length := by
    show r.offset + before.tokens.length + 1 + last.tokens.length = _
    rw [tokens_bar, List.length_append, List.length_cons]
    omega
  rw [before.isRead r _ h₁ (.inl rfl), Reader.resume, Reader.moreAlternatives_bar rfl, hread,
    hoffset]
  rfl

theorem isRefused_start {first : Beginning .iteration} (hfirst : first.IsRefused) :
    (start first).IsRefused := by
  intro r e h
  have hread : r.iteration = .error e := hfirst r e h
  rw [Reader.read, Reader.concatenation_eq, hread]
  rfl

theorem isRefused_juxtapose {before : Derivation .concatenation} {last : Beginning .iteration}
    (hlast : last.IsRefused) : (juxtapose before last).IsRefused := by
  rintro r e ⟨rest, h, ⟨hrefuses, hstops, hstar⟩, rfl⟩
  have h₁ : r.rest = before.tokens ++ (last.tokens ++ rest) := by simp [h]
  have hcurrent : (before.reading h₁).next.current
      = last.tokens.headD (rest.headD .endOfInput) := headD_append ..
  have hread : Reader.iteration _ = .error _ :=
    hlast (before.reading h₁).next _ ⟨rest, rfl, hrefuses, rfl⟩
  have hoffset : (before.reading h₁).next.offset + last.tokens.length
      = r.offset + (juxtapose before last).tokens.length := by
    rw [tokens_juxtapose, List.length_append, ← Nat.add_assoc]
    rfl
  rw [before.isRead r _ h₁ (hcurrent ▸ hstar), Reader.resume,
    Reader.moreIterations_go (hcurrent ▸ hstops), hread, hoffset]
  rfl

theorem isRefused_item {inner : Beginning .atom} (hinner : inner.IsRefused) :
    (item inner).IsRefused := by
  intro r e h
  have hread : r.atom = .error e := hinner r e h
  rw [Reader.read, Reader.iteration_eq, hread]
  rfl

theorem isRefused_nothing : nothing.IsRefused := by
  rintro r e ⟨rest, h, hrefuses, rfl⟩
  have hcurrent : r.current = rest.headD .endOfInput := congrArg (List.headD · _) h
  rw [← hcurrent] at hrefuses ⊢
  refine Reader.atom_unexpected ?_ ?_
  · intro hparen
    exact hrefuses (hparen ▸ .leftParen)
  · intro c hsymbol
    exact hrefuses (hsymbol ▸ .symbol c)

theorem isRefused_unknown : unknown.IsRefused := by
  rintro r e ⟨rest, h, ⟨hcolon, hequals, hdigit⟩, rfl⟩
  have hcurrent : (r.skip 2).current = rest.headD .endOfInput := by
    simp [Reader.skip, Reader.current, h]
  rw [← hcurrent] at hcolon hequals hdigit ⊢
  exact Reader.atom_unknownGroup h hcolon hequals hdigit

theorem isRefused_inside {bracket : Bracket} {body : Beginning .alternative}
    (hbody : body.IsRefused) : (inside bracket body).IsRefused := by
  rintro r e ⟨rest, h, ⟨hrefuses, hquestion⟩, rfl⟩
  have h₁ : r.rest = bracket.tokens ++ (body.tokens ++ rest) := by simp [h]
  obtain ⟨around, later, hatom⟩ := Reader.exists_atom_eq h₁ (by rwa [headD_append])
  have hread : Reader.alternative _ = .error _ :=
    hbody (r.enter bracket) _ ⟨rest, Reader.rest_enter h₁, hrefuses, rfl⟩
  have hoffset : (r.enter bracket).offset + body.tokens.length
      = r.offset + (inside bracket body).tokens.length := by
    rw [Reader.offset_enter, tokens_inside, List.length_append, Nat.add_assoc]
  rw [Reader.read, hatom, hread, hoffset]
  rfl

theorem isRefused_unclosed (bracket : Bracket) (body : Derivation .alternative) :
    (unclosed bracket body).IsRefused := by
  rintro r e ⟨rest, h, hend, rfl⟩
  have h₁ : r.rest = bracket.tokens ++ (body.tokens ++ rest) := by simp [h]
  obtain ⟨first, behind, htokens, hfirst⟩ := body.tokens_eq_cons
  have hquestion : (body.tokens ++ rest).headD .endOfInput ≠ .question := by
    rw [htokens]
    exact hfirst.ne_question
  obtain ⟨around, later, hatom⟩ := Reader.exists_atom_eq h₁ fun _ => hquestion
  have h₂ := Reader.rest_enter h₁
  have hcurrent : (body.reading h₂).next.current = .endOfInput := hend
  have hread : Reader.alternative _ = Reader.moreAlternatives (body.reading h₂) :=
    body.isRead _ _ h₂ (.inr (.inr hcurrent))
  have hclose : ((body.reading h₂).within around later).close = .error _ :=
    Reading.close_of_not_rightParen (fun h => nomatch hcurrent.symm.trans h)
  have hoffset : (body.reading h₂).next.offset
      = r.offset + (unclosed bracket body).tokens.length := by
    show (r.enter bracket).offset + body.tokens.length = _
    rw [Reader.offset_enter, tokens_unclosed, List.length_append, Nat.add_assoc]
  rw [Reader.read, hatom, hread, Reader.moreAlternatives_stop (by rw [hcurrent]; decide)]
  refine hclose.trans ?_
  rw [← hoffset]
  rfl

theorem isRefused_unclosedLink (digit : Char) (isDigit : digit.isDigit) :
    (unclosedLink digit isDigit).IsRefused := by
  rintro r e ⟨rest, h, hparen, rfl⟩
  rw [tokens_unclosedLink] at h
  have hcurrent : (r.skip 3).current = rest.headD .endOfInput := by
    simp [Reader.skip, Reader.current, h]
  have hnot : (r.skip 3).current ≠ .rightParen := hcurrent ▸ hparen
  rw [← hcurrent, Reader.read, Reader.atom_link h (if_pos isDigit),
    Reading.close_of_not_rightParen hnot, tokens_unclosedLink]
  rfl

/-- Reading fails at the end of every beginning, if the next token is one that it refuses. -/
theorem isRefused (b : Beginning form) : b.IsRefused := by
  induction b with
  | single first ih => exact isRefused_single ih
  | bar before last ih => exact isRefused_bar ih
  | start first ih => exact isRefused_start ih
  | juxtapose before last ih => exact isRefused_juxtapose ih
  | item inner ih => exact isRefused_item ih
  | nothing => exact isRefused_nothing
  | unknown => exact isRefused_unknown
  | inside bracket body ih => exact isRefused_inside ih
  | unclosed bracket body => exact isRefused_unclosed bracket body
  | unclosedLink digit isDigit => exact isRefused_unclosedLink digit isDigit

end Beginning

/-! ## Reading fails at beginnings only -/

namespace Reader

theorem error_of_bind {α β : Type} {x : Except SyntaxError α} {f : α → Except SyntaxError β}
    (h : x.bind f = .error e) : x = .error e ∨ ∃ a, x = .ok a ∧ f a = .error e := by
  cases x with
  | error e' => exact .inl (congrArg Except.error (Except.error.inj h))
  | ok a => exact .inr ⟨a, rfl, h⟩

/-- Where a form cannot be read, the tokens begin as one of its beginnings does. -/
def FailsOnly (r : Reader) (form : Form) : Prop :=
  Alphanumeric r.rest → ∀ e, r.read form = .error e → ∃ b : Beginning form, b.StopsAt r e

/-- Where a derivation of a form cannot be prolonged, the tokens begin as a beginning of the form
    does. -/
def ResumeFailsOnly {start : Reader} (done : Reading start) (form : Form) : Prop :=
  Alphanumeric start.rest → done.IsOf form → form.Ends done.next.current →
    ∀ e, resume done form = .error e → ∃ b : Beginning form, b.StopsAt start e

section

variable {start : Reader} {done : Reading start} {tail : List Token}

theorem failsOnly_alternative (hfirst : r.FailsOnly .concatenation)
    (hmore : ∀ first : Reading r, ResumeFailsOnly first .alternative) :
    r.FailsOnly .alternative := by
  intro halpha e he
  rw [read, alternative_eq] at he
  rcases error_of_bind he with he | ⟨first, hread, he⟩
  · obtain ⟨b, hb⟩ := hfirst halpha e he
    exact ⟨.single b, hb⟩
  · obtain ⟨d, rest, h, rfl⟩ := readsOnly r .concatenation halpha first hread
    exact hmore _ halpha ⟨.single d, rest, h, rfl⟩ (Counting.stops_of_concatenation hread) e he

theorem resumeFailsOnly_bar (hbar : done.next.rest = .bar :: tail)
    (hlast : (done.next.skip 1).FailsOnly .concatenation)
    (hmore : ∀ (right : Reading (done.next.skip 1)) further,
      ResumeFailsOnly (done.extend (.alt done.pattern right.pattern) right.next further)
        .alternative) :
    ResumeFailsOnly done .alternative := by
  intro halpha hdone _ e he
  have hbehind := (halpha.behind hdone).skip 1
  rw [resume, moreAlternatives_bar hbar] at he
  rcases error_of_bind he with he | ⟨right, hread, he⟩
  · obtain ⟨b, rest, hrest, hrefuses, rfl⟩ := hlast hbehind e he
    obtain ⟨before, _, h, rfl⟩ := hdone
    obtain rfl := hbar
    obtain rfl : tail = b.tokens ++ rest := hrest
    refine ⟨.bar before b, rest, by simp [h], hrefuses, congrArg (b.gap.refusal _) ?_⟩
    show start.offset + before.tokens.length + 1 + b.tokens.length = _
    rw [Beginning.tokens_bar, List.length_append, List.length_cons]
    omega
  · have hright := readsOnly _ .concatenation hbehind right hread
    have hstops := Counting.stops_of_concatenation hread
    exact hmore right _ halpha (hdone.bar hbar hright _) hstops e he

theorem resumeFailsOnly_noBar (hcurrent : done.next.current ≠ .bar) :
    ResumeFailsOnly done .alternative := by
  intro _ _ _ e he
  rw [resume, moreAlternatives_stop hcurrent] at he
  cases he

theorem failsOnly_concatenation (hfirst : r.FailsOnly .iteration)
    (hmore : ∀ first : Reading r, ResumeFailsOnly first .concatenation) :
    r.FailsOnly .concatenation := by
  intro halpha e he
  rw [read, concatenation_eq] at he
  rcases error_of_bind he with he | ⟨first, hread, he⟩
  · obtain ⟨b, hb⟩ := hfirst halpha e he
    exact ⟨.start b, hb⟩
  · obtain ⟨d, rest, h, rfl⟩ := readsOnly r .iteration halpha first hread
    exact hmore _ halpha ⟨.start d, rest, h, rfl⟩ (Counting.ne_star_of_iteration hread) e he

theorem resumeFailsOnly_stop (hstop : Stops done.next.current) :
    ResumeFailsOnly done .concatenation := by
  intro _ _ _ e he
  rw [resume, moreIterations_stop hstop] at he
  cases he

theorem resumeFailsOnly_juxtapose (hgo : ¬ Stops done.next.current)
    (hlast : done.next.FailsOnly .iteration)
    (hmore : ∀ (right : Reading done.next) further,
      ResumeFailsOnly (done.extend (.concat done.pattern right.pattern) right.next further)
        .concatenation) :
    ResumeFailsOnly done .concatenation := by
  intro halpha hdone hstar e he
  have hbehind := halpha.behind hdone
  rw [resume, moreIterations_go hgo] at he
  rcases error_of_bind he with he | ⟨right, hread, he⟩
  · obtain ⟨b, rest, hrest, hrefuses, rfl⟩ := hlast hbehind e he
    obtain ⟨before, _, h, rfl⟩ := hdone
    obtain rfl := hrest
    have hcurrent := headD_append b.tokens rest
    refine ⟨.juxtapose before b, rest, by simp [h], ⟨hrefuses, ?_, ?_⟩,
      congrArg (b.gap.refusal _) ?_⟩
    · rw [← hcurrent]
      exact hgo
    · rw [← hcurrent]
      exact hstar
    · show start.offset + before.tokens.length + b.tokens.length = _
      rw [Beginning.tokens_juxtapose, List.length_append, Nat.add_assoc]
  · have hright := readsOnly _ .iteration hbehind right hread
    have hstar := Counting.ne_star_of_iteration hread
    exact hmore right _ halpha (hdone.juxtapose hright _) hstar e he

theorem failsOnly_iteration (hatom : r.FailsOnly .atom) : r.FailsOnly .iteration := by
  intro halpha e he
  rw [read, iteration_eq] at he
  rcases error_of_bind he with he | ⟨inner, -, he⟩
  · obtain ⟨b, hb⟩ := hatom halpha e he
    exact ⟨.item b, hb⟩
  · cases he

theorem failsOnly_symbol {c : Char} (hrest : r.rest = .symbol c :: tail) : r.FailsOnly .atom := by
  intro _ e he
  rw [read, atom_symbol hrest] at he
  cases he

theorem failsOnly_bracket (bracket : Bracket) (hrest : r.rest = bracket.tokens ++ tail)
    (hquestion : bracket = .capture → tail.headD .endOfInput ≠ .question)
    (hbody : (r.enter bracket).FailsOnly .alternative) : r.FailsOnly .atom := by
  intro halpha e he
  have hinner : Alphanumeric (r.enter bracket).rest := by
    rw [rest_enter hrest]
    intro c hc
    exact halpha c (hrest ▸ List.mem_append_right _ hc)
  obtain ⟨around, later, hatom⟩ := exists_atom_eq hrest hquestion
  rcases error_of_bind (hatom.symm.trans he) with he | ⟨body, hread, he⟩
  · obtain ⟨b, rest, h, hrefuses, rfl⟩ := hbody hinner e he
    rw [rest_enter hrest] at h
    subst h
    refine ⟨.inside bracket b, rest, by simp [hrest], ⟨hrefuses, ?_⟩,
      congrArg (b.gap.refusal _) ?_⟩
    · rw [← headD_append]
      exact hquestion
    · rw [offset_enter, Beginning.tokens_inside, List.length_append, Nat.add_assoc]
  · have hparen : body.next.current ≠ .rightParen := by
      intro hparen
      have hclose : (body.within around later).close = .ok _ :=
        Reading.close_of_rightParen hparen
      cases hclose.symm.trans he
    have hend := (Counting.ends_of_alternative hread).resolve_left hparen
    obtain ⟨d, rest, h, rfl⟩ := readsOnly _ .alternative hinner body hread
    rw [rest_enter hrest] at h
    subst h
    have hclose : ((d.reading (rest_enter hrest)).within around later).close = .error _ :=
      Reading.close_of_not_rightParen hparen
    obtain rfl := Except.error.inj (hclose.symm.trans he)
    refine ⟨.unclosed bracket d, rest, by simp [hrest], hend,
      congrArg (SyntaxError.expectedToken ')' _) ?_⟩
    show (r.enter bracket).offset + d.tokens.length = _
    rw [offset_enter, Beginning.tokens_unclosed, List.length_append, Nat.add_assoc]

theorem failsOnly_link {c : Char} (hrest : r.rest = .leftParen :: .question :: .symbol c :: tail)
    (isDigit : c.isDigit) : r.FailsOnly .atom := by
  intro _ e he
  have hclose := (atom_link hrest (if_pos isDigit)).symm.trans he
  have hcurrent : (r.skip 3).current = tail.headD .endOfInput := by
    simp [skip, current, hrest]
  have hparen : (r.skip 3).current ≠ .rightParen := by
    intro hparen
    rw [Reading.close_of_rightParen hparen] at hclose
    cases hclose
  rw [Reading.close_of_not_rightParen hparen] at hclose
  obtain rfl := Except.error.inj hclose
  refine ⟨.unclosedLink c isDigit, tail, by simp [hrest], hcurrent ▸ hparen, ?_⟩
  rw [← hcurrent]
  simp [Beginning.gap, Gap.refusal, skip]

theorem failsOnly_noKind (hrest : r.rest = .leftParen :: .question :: tail)
    (hcolon : (r.skip 2).current ≠ .colon) (hequals : (r.skip 2).current ≠ .equals)
    (hdigit : (r.skip 2).current.digit? = none) : r.FailsOnly .atom := by
  intro _ e he
  have hcurrent : (r.skip 2).current = tail.headD .endOfInput := by
    simp [skip, current, hrest]
  obtain rfl := Except.error.inj ((atom_unknownGroup hrest hcolon hequals hdigit).symm.trans he)
  rw [hcurrent] at hcolon hequals hdigit
  refine ⟨.unknown, tail, hrest, ⟨hcolon, hequals, hdigit⟩, ?_⟩
  rw [← hcurrent]
  rfl

theorem failsOnly_noAtom (hparen : r.current ≠ .leftParen) (hsymbol : ∀ c, r.current ≠ .symbol c) :
    r.FailsOnly .atom := by
  intro _ e he
  obtain rfl := Except.error.inj ((atom_unexpected hparen hsymbol).symm.trans he)
  refine ⟨.nothing, r.rest, rfl, fun hbegins => ?_, rfl⟩
  rcases Token.begins_iff.1 hbegins with h | ⟨c, h⟩
  · exact hparen h
  · exact hsymbol c h

theorem failsOnly_capture (hrest : r.rest = .leftParen :: tail)
    (hquestion : r.openCapture.current ≠ .question) (hbody : r.openCapture.FailsOnly .alternative) :
    r.FailsOnly .atom := by
  have hopened : r.openCapture.rest = tail := congrArg (List.drop 1) hrest
  refine failsOnly_bracket .capture hrest (fun _ => ?_) hbody
  rw [← hopened]
  exact hquestion

theorem failsOnly_calls : KeptByCalls FailsOnly ResumeFailsOnly where
  alternative := failsOnly_alternative
  bar := resumeFailsOnly_bar
  noBar := resumeFailsOnly_noBar
  concatenation := failsOnly_concatenation
  stop := resumeFailsOnly_stop
  juxtapose := resumeFailsOnly_juxtapose
  iteration := failsOnly_iteration
  symbol := failsOnly_symbol
  group hrest hbody := failsOnly_bracket .group hrest (fun h => by cases h) hbody
  lookahead hrest hbody := failsOnly_bracket .lookahead hrest (fun h => by cases h) hbody
  link := failsOnly_link
  noKind := failsOnly_noKind
  capture hrest hquestion hbody := failsOnly_capture hrest hquestion (hbody _)
  noAtom := failsOnly_noAtom

end

/-- An alternative is refused exactly at the ends of its beginnings. -/
theorem alternative_eq_error_iff (halpha : Alphanumeric r.rest) :
    r.alternative = .error e ↔ ∃ b : Beginning .alternative, b.StopsAt r e := by
  constructor
  · exact failsOnly_calls.holds r .alternative halpha e
  · rintro ⟨b, hb⟩
    exact b.isRefused r e hb

end Reader

end PatternGrammar
