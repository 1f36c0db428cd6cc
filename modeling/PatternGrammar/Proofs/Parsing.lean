import PatternGrammar.Proofs.Reading

set_option autoImplicit false

/-! # Which texts are patterns

The reader reads nothing but derivations (`Reader.readsOnly`). Together with the other direction,
`Derivation.isRead`, this says which texts are accepted and as what
(`Pattern.parse_eq_ok_iff`), and that no text has two derivations. -/

namespace PatternGrammar

/-! ## What is read is a derivation -/

theorem error_ne_ok {α : Type} {e : SyntaxError} {a : α} :
    (.error e : Except SyntaxError α) ≠ .ok a := by
  intro h
  cases h

/-- The symbols among the tokens are letters and digits, as those that scanning yields are. -/
def Alphanumeric (tokens : List Token) : Prop :=
  ∀ c, .symbol c ∈ tokens → c.isAlphanum

theorem Alphanumeric.skip {r : Reader} (halpha : Alphanumeric r.rest) (count : Nat) :
    Alphanumeric (r.skip count).rest := by
  intro c hc
  exact halpha c (List.mem_of_mem_drop hc)

/-- What was read is a derivation of the form. -/
def Reading.IsOf {start : Reader} (done : Reading start) (form : Form) : Prop :=
  ∃ (d : Derivation form) (rest : List Token) (h : start.rest = d.tokens ++ rest),
    done = d.reading h

theorem Alphanumeric.behind {form : Form} {start : Reader} {done : Reading start}
    (halpha : Alphanumeric start.rest) (hdone : done.IsOf form) : Alphanumeric done.next.rest := by
  obtain ⟨d, rest, h, rfl⟩ := hdone
  intro c hc
  exact halpha c (h ▸ List.mem_append_right d.tokens hc)

namespace Reading.IsOf

variable {start : Reader} {done : Reading start} {tail : List Token}

/-- A bar and a concatenation prolong an alternation. -/
theorem bar (hdone : done.IsOf .alternative) (hbar : done.next.rest = .bar :: tail)
    {right : Reading (done.next.skip 1)} (hright : right.IsOf .concatenation)
    (further : right.next.rest.length ≤ done.next.rest.length) :
    (done.extend (.alt done.pattern right.pattern) right.next further).IsOf .alternative := by
  obtain ⟨before, _, h, rfl⟩ := hdone
  obtain rfl := hbar
  obtain ⟨last, rest, h', rfl⟩ := hright
  have hnew : start.rest = (Derivation.bar before last).tokens ++ rest := by
    rw [h, Derivation.tokens_bar, List.append_assoc, List.cons_append]
    exact congrArg (before.tokens ++ .bar :: ·) h'
  exact ⟨.bar before last, rest, hnew, Derivation.extend_bar before last h h' hnew _⟩

/-- An iteration prolongs a concatenation. -/
theorem juxtapose (hdone : done.IsOf .concatenation) {right : Reading done.next}
    (hright : right.IsOf .iteration)
    (further : right.next.rest.length ≤ done.next.rest.length) :
    (done.extend (.concat done.pattern right.pattern) right.next further).IsOf .concatenation := by
  obtain ⟨before, _, h, rfl⟩ := hdone
  obtain ⟨last, rest, h', rfl⟩ := hright
  have hnew : start.rest = (Derivation.juxtapose before last).tokens ++ rest := by
    rw [h, Derivation.tokens_juxtapose, List.append_assoc]
    exact congrArg (before.tokens ++ ·) h'
  exact ⟨.juxtapose before last, rest, hnew, Derivation.extend_juxtapose before last h h' hnew _⟩

end Reading.IsOf

namespace Reader

/-- Whatever is read as a form at this place is a derivation of it. -/
def ReadsOnly (r : Reader) (form : Form) : Prop :=
  Alphanumeric r.rest → ∀ result, r.read form = .ok result → result.IsOf form

/-- Going on with a derivation of a form yields a derivation of it. -/
def ResumesOnly {start : Reader} (done : Reading start) (form : Form) : Prop :=
  Alphanumeric start.rest → done.IsOf form →
    ∀ result, resume done form = .ok result → result.IsOf form

/-! ### The single calls -/

section

variable {r start : Reader} {done : Reading start} {tail : List Token}

theorem readsOnly_alternative (hfirst : r.ReadsOnly .concatenation)
    (hmore : ∀ first : Reading r, ResumesOnly first .alternative) : r.ReadsOnly .alternative := by
  intro halpha result hresult
  rw [read, alternative_eq] at hresult
  obtain ⟨first, hread, hresult⟩ := exists_of_bind_eq_ok hresult
  obtain ⟨d, rest, h, rfl⟩ := hfirst halpha first hread
  exact hmore _ halpha ⟨.single d, rest, h, rfl⟩ result hresult

theorem resumesOnly_bar (hbar : done.next.rest = .bar :: tail)
    (hlast : (done.next.skip 1).ReadsOnly .concatenation)
    (hmore : ∀ (right : Reading (done.next.skip 1)) further,
      ResumesOnly (done.extend (.alt done.pattern right.pattern) right.next further) .alternative) :
    ResumesOnly done .alternative := by
  intro halpha hdone result hresult
  rw [resume, moreAlternatives_bar hbar] at hresult
  obtain ⟨right, hread, hresult⟩ := exists_of_bind_eq_ok hresult
  have hright := hlast ((halpha.behind hdone).skip 1) right hread
  exact hmore right _ halpha (hdone.bar hbar hright _) result hresult

theorem resumesOnly_noBar (hcurrent : done.next.current ≠ .bar) :
    ResumesOnly done .alternative := by
  intro halpha hdone result hresult
  rw [resume, moreAlternatives_stop hcurrent] at hresult
  exact Except.ok.inj hresult ▸ hdone

theorem readsOnly_concatenation (hfirst : r.ReadsOnly .iteration)
    (hmore : ∀ first : Reading r, ResumesOnly first .concatenation) :
    r.ReadsOnly .concatenation := by
  intro halpha result hresult
  rw [read, concatenation_eq] at hresult
  obtain ⟨first, hread, hresult⟩ := exists_of_bind_eq_ok hresult
  obtain ⟨d, rest, h, rfl⟩ := hfirst halpha first hread
  exact hmore _ halpha ⟨.start d, rest, h, rfl⟩ result hresult

theorem resumesOnly_stop (hstop : Stops done.next.current) : ResumesOnly done .concatenation := by
  intro halpha hdone result hresult
  rw [resume, moreIterations_stop hstop] at hresult
  exact Except.ok.inj hresult ▸ hdone

theorem resumesOnly_juxtapose (hgo : ¬ Stops done.next.current)
    (hlast : done.next.ReadsOnly .iteration)
    (hmore : ∀ (right : Reading done.next) further,
      ResumesOnly (done.extend (.concat done.pattern right.pattern) right.next further)
        .concatenation) :
    ResumesOnly done .concatenation := by
  intro halpha hdone result hresult
  rw [resume, moreIterations_go hgo] at hresult
  obtain ⟨right, hread, hresult⟩ := exists_of_bind_eq_ok hresult
  have hright := hlast (halpha.behind hdone) right hread
  exact hmore right _ halpha (hdone.juxtapose hright _) result hresult

theorem isOf_stars (done : Reading start) (h : done.IsOf .iteration) :
    done.stars.IsOf .iteration := by
  fun_induction Reading.stars done with
  | case1 done tail hstar ih =>
      obtain ⟨before, _, h, rfl⟩ := h
      obtain rfl := hstar
      have hnew : start.rest = (Derivation.starred before).tokens ++ tail := by simp [h]
      refine ih ⟨.starred before, tail, hnew, Derivation.eq_reading hnew rfl rfl ?_ rfl⟩
      simp [Reading.extend, Derivation.reading, skip]
      omega
  | case2 done hnone => exact h

theorem readsOnly_iteration (hatom : r.ReadsOnly .atom) : r.ReadsOnly .iteration := by
  intro halpha result hresult
  rw [read, iteration_eq] at hresult
  obtain ⟨inner, hread, hresult⟩ := exists_of_bind_eq_ok hresult
  obtain ⟨d, rest, h, rfl⟩ := hatom halpha inner hread
  obtain rfl := Except.ok.inj hresult
  exact isOf_stars _ ⟨.item d, rest, h, rfl⟩

/-- An atom is read in no way but the one of its derivation. -/
theorem isOf_atom (d : Derivation .atom) (rest : List Token) (h : r.rest = d.tokens ++ rest)
    {result : Reading r} (hresult : r.atom = .ok result) : result.IsOf .atom :=
  ⟨d, rest, h, Except.ok.inj (hresult.symm.trans (d.isRead _ rest h trivial))⟩

theorem readsOnly_symbol {c : Char} (hrest : r.rest = .symbol c :: tail) :
    r.ReadsOnly .atom := by
  intro halpha result hresult
  have hc : c.isAlphanum := halpha c (by simp [hrest])
  exact isOf_atom (.symbol c hc) tail (by rw [hrest, Derivation.tokens_symbol]; rfl) hresult

/-- Between the parentheses of a group of any kind stands a derivation. -/
theorem exists_of_bind_close {inner : Reader} {around : Pattern → Pattern}
    {later : inner.rest.length ≤ r.rest.length} (hinner : inner.ReadsOnly .alternative)
    (halpha : Alphanumeric inner.rest) {result : Reading r}
    (h : (inner.alternative.bind fun found => (found.within around later).close) = .ok result) :
    ∃ (body : Derivation .alternative) (rest : List Token),
      inner.rest = body.tokens ++ .rightParen :: rest := by
  obtain ⟨found, hfound, hclose⟩ := exists_of_bind_eq_ok h
  obtain ⟨body, rest, hbody, rfl⟩ := hinner halpha found hfound
  by_cases hparen : (body.reading hbody).next.current = .rightParen
  · obtain ⟨tail, htail⟩ := rest_eq_of_current hparen (by decide)
    obtain rfl : rest = .rightParen :: tail := htail
    exact ⟨body, tail, hbody⟩
  · exact absurd ((if_neg hparen).symm.trans hclose) error_ne_ok

theorem readsOnly_group (hrest : r.rest = .leftParen :: .question :: .colon :: tail)
    (hbody : (r.skip 3).ReadsOnly .alternative) : r.ReadsOnly .atom := by
  intro halpha result hresult
  obtain ⟨body, rest, h⟩ :=
    exists_of_bind_close hbody (halpha.skip 3) ((atom_group hrest).symm.trans hresult)
  have htail : tail = body.tokens ++ .rightParen :: rest := by simpa [skip, hrest] using h
  exact isOf_atom (.group body) rest (by simp [hrest, htail]) hresult

theorem readsOnly_lookahead (hrest : r.rest = .leftParen :: .question :: .equals :: tail)
    (hbody : (r.skip 3).ReadsOnly .alternative) : r.ReadsOnly .atom := by
  intro halpha result hresult
  obtain ⟨body, rest, h⟩ :=
    exists_of_bind_close hbody (halpha.skip 3) ((atom_lookahead hrest).symm.trans hresult)
  have htail : tail = body.tokens ++ .rightParen :: rest := by simpa [skip, hrest] using h
  exact isOf_atom (.lookahead body) rest (by simp [hrest, htail]) hresult

theorem readsOnly_capture (hrest : r.rest = .leftParen :: tail)
    (hquestion : r.openCapture.current ≠ .question)
    (hbody : r.openCapture.ReadsOnly .alternative) : r.ReadsOnly .atom := by
  intro halpha result hresult
  obtain ⟨body, rest, h⟩ :=
    exists_of_bind_close hbody (halpha.skip 1) ((atom_capture hrest hquestion).symm.trans hresult)
  have htail : tail = body.tokens ++ .rightParen :: rest := by
    simpa [openCapture, openAs, skip, hrest] using h
  exact isOf_atom (.capture body) rest (by simp [hrest, htail]) hresult

theorem readsOnly_link {c : Char} (hrest : r.rest = .leftParen :: .question :: .symbol c :: tail)
    (isDigit : c.isDigit) : r.ReadsOnly .atom := by
  intro halpha result hresult
  have hclose := (atom_link hrest (if_pos isDigit)).symm.trans hresult
  -- Behind the digit the parenthesis had to close.
  by_cases hparen : (r.skip 3).current = .rightParen
  · obtain ⟨rest, h⟩ := rest_eq_of_current hparen (by decide)
    obtain rfl : tail = .rightParen :: rest := by simpa [skip, hrest] using h
    exact isOf_atom (.link c isDigit) rest (by simp [hrest]) hresult
  · exact absurd ((if_neg hparen).symm.trans hclose) error_ne_ok

theorem readsOnly_noKind (hrest : r.rest = .leftParen :: .question :: tail)
    (hcolon : (r.skip 2).current ≠ .colon) (hequals : (r.skip 2).current ≠ .equals)
    (hdigit : (r.skip 2).current.digit? = none) : r.ReadsOnly .atom := by
  intro _ result hresult
  exact absurd ((atom_unknownGroup hrest hcolon hequals hdigit).symm.trans hresult) error_ne_ok

theorem readsOnly_noAtom (hparen : r.current ≠ .leftParen) (hsymbol : ∀ c, r.current ≠ .symbol c) :
    r.ReadsOnly .atom := by
  intro _ result hresult
  exact absurd ((atom_unexpected hparen hsymbol).symm.trans hresult) error_ne_ok

end

/-! ### The whole recursion -/

theorem readsOnly_calls : KeptByCalls ReadsOnly ResumesOnly where
  alternative := readsOnly_alternative
  bar := resumesOnly_bar
  noBar := resumesOnly_noBar
  concatenation := readsOnly_concatenation
  stop := resumesOnly_stop
  juxtapose := resumesOnly_juxtapose
  iteration := readsOnly_iteration
  symbol := readsOnly_symbol
  group := readsOnly_group
  lookahead := readsOnly_lookahead
  link := readsOnly_link
  noKind := readsOnly_noKind
  capture hrest hquestion hbody := readsOnly_capture hrest hquestion (hbody _)
  noAtom := readsOnly_noAtom

/-- What is read as a form is derived as this form. -/
theorem readsOnly (r : Reader) (form : Form) : r.ReadsOnly form :=
  readsOnly_calls.holds r form

end Reader

/-! ## Whole texts -/

theorem Derivation.alternative_eq_ok {r : Reader} (d : Derivation .alternative)
    (h : r.rest = d.tokens ++ [.endOfInput]) : r.alternative = .ok (d.reading h) := by
  have hend : (d.reading h).next.current = .endOfInput := rfl
  refine (d.isRead r _ h (.inr (.inr hend))).trans ?_
  exact Reader.moreAlternatives_stop (by rw [hend]; decide)

/-- No text has two derivations. -/
theorem Derivation.chars_injective :
    Function.Injective fun d : Derivation .alternative => d.chars := by
  intro d d' h
  have htokens : d.tokens = d'.tokens := congrArg Token.ofChars h
  have hd : Reader.alternative ⟨d.tokens ++ [.endOfInput], 0, 0⟩ = _ := d.alternative_eq_ok rfl
  have hd' : Reader.alternative ⟨d.tokens ++ [.endOfInput], 0, 0⟩ = _ :=
    d'.alternative_eq_ok (congrArg (· ++ [.endOfInput]) htokens)
  exact pattern_injective 0 (congrArg Reading.pattern (Except.ok.inj (hd.symm.trans hd')))

namespace Pattern

variable {text : String}

theorem parse_eq_bind (text : String) :
    parse text = (Token.scan text).bind fun tokens =>
      (Reader.alternative ⟨tokens, 0, 0⟩).bind finish := by
  rw [parse, parseBy]
  simp only [Counting.lift_unbounded]
  rfl

/-- A derived text is refused at most for its captures. -/
theorem parse_of_derivation {d : Derivation .alternative} (h : d.chars = text.toList) :
    parse text = if maxCaptures < d.captures then .error (.tooManyCaptures d.captures)
      else .ok (d.pattern 0) := by
  have hscan : Token.scan text = .ok (d.tokens ++ [.endOfInput]) := by
    rw [Token.scan, ← h, Token.scanFrom_eq_ok_iff]
    exact ⟨d.inNotation_chars, rfl⟩
  have hrest : Reader.rest ⟨d.tokens ++ [.endOfInput], 0, 0⟩ = d.tokens ++ [.endOfInput] := rfl
  have hend : ¬ (d.reading hrest).next.current ≠ .endOfInput := not_not_intro rfl
  rw [parse_eq_bind, hscan, Except.bind, d.alternative_eq_ok hrest, Except.bind, finish,
    if_neg hend]
  simp only [Derivation.reading, Nat.zero_add]

/-- What is accepted is derived, for it was read up to its end. -/
theorem exists_of_parse_eq_ok {p : Pattern} (h : parse text = .ok p) :
    ∃ d : Derivation .alternative,
      d.chars = text.toList ∧ d.captures ≤ maxCaptures ∧ d.pattern 0 = p := by
  rw [parse_eq_bind] at h
  obtain ⟨tokens, hscan, h⟩ := exists_of_bind_eq_ok h
  obtain ⟨whole, hread, hfinish⟩ := exists_of_bind_eq_ok h
  obtain ⟨hchars, rfl⟩ := Token.scanFrom_eq_ok_iff.1 hscan
  have halpha : Alphanumeric (Token.ofChars text.toList ++ [.endOfInput]) := by
    intro c hc
    exact Token.isAlphanum_of_mem_ofChars (by simpa using hc)
  obtain ⟨d, rest, hrest, rfl⟩ := Reader.readsOnly _ .alternative halpha whole hread
  unfold finish at hfinish
  split at hfinish
  next => exact absurd hfinish error_ne_ok
  next hend =>
    split at hfinish
    next => exact absurd hfinish error_ne_ok
    next hcaptures =>
      have htokens : d.tokens = Token.ofChars text.toList :=
        Token.ofChars_eq_of_append_eq hrest.symm (Decidable.not_not.1 hend) rfl
      refine ⟨d, Token.eq_of_ofChars_eq d.inNotation_chars hchars htokens, ?_,
        Except.ok.inj hfinish⟩
      simpa [Derivation.reading] using hcaptures

/-- The accepted texts are the derived ones that open at most nine captures. Each of them is read
    as the pattern of its derivation, and no text has another derivation. -/
theorem parse_eq_ok_iff (text : String) :
    (∀ p : Pattern, parse text = .ok p ↔ ∃ d : Derivation .alternative,
        d.chars = text.toList ∧ d.captures ≤ 9 ∧ d.pattern 0 = p)
      ∧ ∀ d d' : Derivation .alternative,
        d.chars = text.toList → d'.chars = text.toList → d = d' := by
  constructor
  · intro p
    constructor
    · exact exists_of_parse_eq_ok
    · rintro ⟨d, hchars, hcaptures, rfl⟩
      rw [parse_of_derivation hchars]
      exact if_neg (Nat.not_lt.2 hcaptures)
  · intro d d' hd hd'
    exact Derivation.chars_injective (hd.trans hd'.symm)

end Pattern

end PatternGrammar
