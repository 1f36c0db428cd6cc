import PatternGrammar.Proofs.Parsing
import PatternGrammar.Proofs.Ways

set_option autoImplicit false

/-! # Counting in a word

Two readers that count alike wherever the first of them gets to read alike, and what stands behind
the end makes no difference to them (`Counting.readsAlike`). A reader that counts in a word counts
like one that counts without a bound as long as the parentheses in front of it cannot fill the word
(`Counting.countsAlike_word`). So a text with fewer parentheses than the word has numbers is read in
the word as it is read without a bound (`Pattern.parseBy_word`). -/

namespace PatternGrammar

namespace Reader

/-- The number of captures opened behind all tokens if every parenthesis opened one. -/
def reach (r : Reader) : Nat :=
  r.opened + r.rest.count .leftParen

theorem opened_lt_reach {r : Reader} (h : r.current = .leftParen) : r.opened < r.reach := by
  obtain ⟨tail, htail⟩ := rest_eq_of_current h (by decide)
  rw [reach, htail, List.count_cons_self]
  omega

/-- The same place in tokens that go on with `behind`. -/
def append (r : Reader) (behind : List Token) : Reader :=
  { r with rest := r.rest ++ behind }

/-- As long as the end follows, the next token does not depend on what stands behind the end. -/
theorem current_append {r : Reader} (behind : List Token) (hend : .endOfInput ∈ r.rest) :
    (r.append behind).current = r.current := by
  obtain ⟨_ | ⟨token, tail⟩, offset, opened⟩ := r
  · exact absurd hend List.not_mem_nil
  · rfl

theorem unexpected_append {r : Reader} (behind : List Token) (hend : .endOfInput ∈ r.rest) :
    (r.append behind).unexpected = r.unexpected :=
  congrArg (SyntaxError.unexpectedToken · r.offset) (current_append behind hend)

end Reader

namespace Reading

variable {start : Reader}

/-- The same reading in tokens that go on with `behind`. -/
def append (done : Reading start) (behind : List Token) : Reading (start.append behind) where
  pattern := done.pattern
  next := done.next.append behind
  progress := by
    simp only [Reader.append, List.length_append]
    exact Nat.add_lt_add_right done.progress _

theorem current_next_append (done : Reading start) (behind : List Token)
    (hend : .endOfInput ∈ done.next.rest) :
    (done.append behind).next.current = done.next.current :=
  Reader.current_append behind hend

theorem close_append (done : Reading start) (behind : List Token)
    (hend : .endOfInput ∈ done.next.rest) :
    (done.append behind).close = done.close.map (·.append behind) := by
  have hcurrent := done.current_next_append behind hend
  by_cases hparen : done.next.current = .rightParen
  · obtain ⟨tail, htail⟩ := Reader.rest_eq_of_current hparen (by decide)
    obtain ⟨pattern, ⟨_, offset, opened⟩, progress⟩ := done
    subst htail
    rfl
  · rw [close_of_not_rightParen hparen, close_of_not_rightParen (hcurrent ▸ hparen), hcurrent]
    rfl

theorem stars_append (done : Reading start) (behind : List Token)
    (hend : .endOfInput ∈ done.next.rest) :
    (done.append behind).stars = done.stars.append behind := by
  fun_induction stars done with
  | case1 done tail hstar ih =>
      obtain ⟨pattern, ⟨_, offset, opened⟩, progress⟩ := done
      subst hstar
      rw [stars_of_star rfl]
      exact ih ((List.mem_cons.1 hend).resolve_left (by decide))
  | case2 done hnone =>
      have hcurrent := done.current_next_append behind hend
      rw [stars_stop (hcurrent ▸ Reader.current_ne (by decide) hnone)]

end Reading

namespace Counting

open Reader

/-! ## Readers that count alike -/

section

variable {ε ε' : Type} {counting : Counting ε} {other : Counting ε'} {halt : ε → ε'}
  {r start next : Reader} {behind : List Token}

/-- At each parenthesis that a reader gets to, another one counts as it does. Where it ends with
    `x`, the other one ends with `halt x`. -/
structure CountsAlike (counting : Counting ε) (other : Counting ε') (halt : ε → ε') (r : Reader) :
    Prop where
  /-- The end of the tokens follows. -/
  hasEnd : .endOfInput ∈ r.rest
  /-- They refuse a text for the same errors. -/
  refuse_eq (e : SyntaxError) : other.refuse e = halt (counting.refuse e)
  /-- They find the same indices. -/
  next_eq {place : Reader} : counting.Advances r place → place.current = .leftParen →
    other.next place.opened = (counting.next place.opened).mapError halt

theorem CountsAlike.further (h : counting.CountsAlike other halt r)
    (hway : counting.Advances r next) : counting.CountsAlike other halt next where
  hasEnd := hway.mem_rest h.hasEnd
  refuse_eq := h.refuse_eq
  next_eq hplace := h.next_eq (hway.trans hplace)

theorem CountsAlike.refl (counting : Counting ε) (hend : .endOfInput ∈ r.rest) :
    CountsAlike counting counting id r where
  hasEnd := hend
  refuse_eq _ := rfl
  next_eq {place} _ _ := by cases counting.next place.opened <;> rfl

/-- An outcome of the one reader as the outcome of the other in tokens that go on with `behind`. -/
def carry (halt : ε → ε') (behind : List Token) {start : Reader} :
    Except ε (Reading start) → Except ε' (Reading (start.append behind))
  | .ok done => .ok (done.append behind)
  | .error x => .error (halt x)

theorem bind_carry {inner : Reader} {x : Except ε (Reading inner)}
    {x' : Except ε' (Reading (inner.append behind))} {f : Reading inner → Except ε (Reading start)}
    {f' : Reading (inner.append behind) → Except ε' (Reading (start.append behind))}
    (hx : x' = carry halt behind x)
    (hf : ∀ done, x = .ok done → f' (done.append behind) = carry halt behind (f done)) :
    x'.bind f' = carry halt behind (x.bind f) := by
  subst hx
  cases x with
  | error e => rfl
  | ok done => exact hf done rfl

theorem CountsAlike.close (done : Reading start) (h : counting.CountsAlike other halt done.next)
    (behind : List Token) :
    other.lift (done.append behind).close = carry halt behind (counting.lift done.close) := by
  rw [done.close_append behind h.hasEnd]
  cases done.close with
  | ok closed => rfl
  | error e => exact congrArg Except.error (h.refuse_eq e)

/-- Where two readers count alike, the other one reads a form as the first one does, whatever stands
    behind the end. -/
def ReadsAlike (counting : Counting ε) (other : Counting ε') (halt : ε → ε') (r : Reader)
    (form : Form) : Prop :=
  counting.CountsAlike other halt r →
    ∀ behind, other.read (r.append behind) form = carry halt behind (counting.read r form)

/-- Where two readers count alike, the other one goes on with a form as the first one does, whatever
    stands behind the end. -/
def ResumesAlike (counting : Counting ε) (other : Counting ε') (halt : ε → ε') {start : Reader}
    (done : Reading start) (form : Form) : Prop :=
  counting.CountsAlike other halt done.next →
    ∀ behind, other.resume (done.append behind) form
      = carry halt behind (counting.resume done form)

variable {done : Reading start} {tail : List Token}

theorem readsAlike_alternative (hfirst : counting.ReadsAlike other halt r .concatenation)
    (hmore : ∀ first : Reading r, counting.ResumesAlike other halt first .alternative) :
    counting.ReadsAlike other halt r .alternative := by
  intro h behind
  rw [read, read, alternative_eq, alternative_eq]
  exact bind_carry (hfirst h behind) fun first hread =>
    hmore first (h.further (advances_of_read .concatenation hread)) behind

theorem resumesAlike_bar (hbar : done.next.rest = .bar :: tail)
    (hlast : counting.ReadsAlike other halt (done.next.skip 1) .concatenation)
    (hmore : ∀ (right : Reading (done.next.skip 1)) further,
      counting.ResumesAlike other halt
        (done.extend (.alt done.pattern right.pattern) right.next further) .alternative) :
    counting.ResumesAlike other halt done .alternative := by
  intro h behind
  have htail := h.further (counting.advances_skip [.bar] hbar (by decide))
  -- Going over the bar and going on with `behind` commute only where the bar is in view.
  obtain ⟨pattern, ⟨_, offset, opened⟩, progress⟩ := done
  subst hbar
  rw [resume, resume, moreAlternatives_bar rfl, moreAlternatives_bar rfl]
  refine bind_carry (hlast htail behind) fun right hread => ?_
  exact hmore right _ (htail.further (advances_of_read .concatenation hread)) behind

theorem resumesAlike_noBar (hcurrent : done.next.current ≠ .bar) :
    counting.ResumesAlike other halt done .alternative := by
  intro h behind
  have hbehind := done.current_next_append behind h.hasEnd
  rw [resume, resume, moreAlternatives_stop hcurrent, moreAlternatives_stop (hbehind ▸ hcurrent)]
  rfl

theorem readsAlike_concatenation (hfirst : counting.ReadsAlike other halt r .iteration)
    (hmore : ∀ first : Reading r, counting.ResumesAlike other halt first .concatenation) :
    counting.ReadsAlike other halt r .concatenation := by
  intro h behind
  rw [read, read, concatenation_eq, concatenation_eq]
  exact bind_carry (hfirst h behind) fun first hread =>
    hmore first (h.further (advances_of_read .iteration hread)) behind

theorem resumesAlike_stop (hstop : Stops done.next.current) :
    counting.ResumesAlike other halt done .concatenation := by
  intro h behind
  have hbehind := done.current_next_append behind h.hasEnd
  rw [resume, resume, moreIterations_stop hstop, moreIterations_stop (hbehind ▸ hstop)]
  rfl

theorem resumesAlike_juxtapose (hgo : ¬ Stops done.next.current)
    (hlast : counting.ReadsAlike other halt done.next .iteration)
    (hmore : ∀ (right : Reading done.next) further,
      counting.ResumesAlike other halt
        (done.extend (.concat done.pattern right.pattern) right.next further) .concatenation) :
    counting.ResumesAlike other halt done .concatenation := by
  intro h behind
  have hbehind := done.current_next_append behind h.hasEnd
  rw [resume, resume, moreIterations_go hgo, moreIterations_go (hbehind ▸ hgo)]
  refine bind_carry (hlast h behind) fun right hread => ?_
  exact hmore right _ (h.further (advances_of_read .iteration hread)) behind

theorem readsAlike_iteration (hatom : counting.ReadsAlike other halt r .atom) :
    counting.ReadsAlike other halt r .iteration := by
  intro h behind
  rw [read, read, iteration_eq, iteration_eq]
  refine bind_carry (hatom h behind) fun inner hread => ?_
  have hinner := h.further (advances_of_read .atom hread)
  exact congrArg Except.ok (inner.stars_append behind hinner.hasEnd)

theorem readsAlike_symbol {c : Char} (hrest : r.rest = .symbol c :: tail) :
    counting.ReadsAlike other halt r .atom := by
  intro _ behind
  obtain ⟨_, offset, opened⟩ := r
  subst hrest
  rw [read, read, atom_symbol rfl, atom_symbol rfl]
  rfl

/-- Whether the parenthesis behind a pattern in a group closes it does not depend on what stands
    behind the end. -/
theorem bind_close_carry {inner : Reader} {around : Pattern → Pattern}
    {later : inner.rest.length ≤ r.rest.length}
    {later' : (inner.append behind).rest.length ≤ (r.append behind).rest.length}
    (hbody : counting.ReadsAlike other halt inner .alternative)
    (h : counting.CountsAlike other halt inner) :
    ((other.alternative (inner.append behind)).bind fun body =>
        other.lift (body.within around later' : Reading (r.append behind)).close)
      = carry halt behind ((counting.alternative inner).bind fun body =>
          counting.lift (body.within around later).close) := by
  refine bind_carry (hbody h behind) fun body hread => ?_
  have hbehind := h.further (advances_of_read .alternative hread)
  exact CountsAlike.close (body.within around later) hbehind behind

theorem readsAlike_group (hrest : r.rest = .leftParen :: .question :: .colon :: tail)
    (hbody : counting.ReadsAlike other halt (r.skip 3) .alternative) :
    counting.ReadsAlike other halt r .atom := by
  intro h behind
  have hinner := h.further
    (counting.advances_skip [.leftParen, .question, .colon] hrest (by decide))
  obtain ⟨_, offset, opened⟩ := r
  subst hrest
  rw [read, read, atom_group rfl, atom_group rfl]
  exact bind_close_carry hbody hinner

theorem readsAlike_lookahead (hrest : r.rest = .leftParen :: .question :: .equals :: tail)
    (hbody : counting.ReadsAlike other halt (r.skip 3) .alternative) :
    counting.ReadsAlike other halt r .atom := by
  intro h behind
  have hinner := h.further
    (counting.advances_skip [.leftParen, .question, .equals] hrest (by decide))
  obtain ⟨_, offset, opened⟩ := r
  subst hrest
  rw [read, read, atom_lookahead rfl, atom_lookahead rfl]
  exact bind_close_carry hbody hinner

theorem readsAlike_capture (hrest : r.rest = .leftParen :: tail)
    (hquestion : (r.skip 1).current ≠ .question)
    (hbody : ∀ index, counting.ReadsAlike other halt (r.openAs index) .alternative) :
    counting.ReadsAlike other halt r .atom := by
  intro h behind
  have hcurrent := current_of_rest hrest
  have hnext := h.next_eq .refl hcurrent
  have hinner {index : Nat} (hindex : counting.next r.opened = .ok index) :=
    h.further (.single (.openAs hcurrent hindex))
  have hskip := h.further (counting.advances_skip [.leftParen] hrest (by decide))
  have hbehind := current_append behind hskip.hasEnd
  obtain ⟨_, offset, opened⟩ := r
  subst hrest
  rw [read, read, atom_capture rfl hquestion, atom_capture rfl (hbehind ▸ hquestion)]
  show Except.bind (other.next opened) _ = _
  rw [hnext]
  cases hindex : counting.next opened with
  | error x => rfl
  | ok index => exact bind_close_carry (hbody index) (hinner hindex)

theorem readsAlike_link {c : Char}
    (hrest : r.rest = .leftParen :: .question :: .symbol c :: tail) (isDigit : c.isDigit) :
    counting.ReadsAlike other halt r .atom := by
  intro h behind
  have hskip := h.further
    (counting.advances_skip [.leftParen, .question, .symbol c] hrest (by simp))
  obtain ⟨index, hindex⟩ : ∃ index, (Token.symbol c).digit? = some index := ⟨_, if_pos isDigit⟩
  obtain ⟨_, offset, opened⟩ := r
  subst hrest
  rw [read, read, atom_link rfl hindex, atom_link rfl hindex]
  exact CountsAlike.close ⟨.link index, _, _⟩ hskip behind

theorem readsAlike_noKind (hrest : r.rest = .leftParen :: .question :: tail)
    (hcolon : (r.skip 2).current ≠ .colon) (hequals : (r.skip 2).current ≠ .equals)
    (hdigit : (r.skip 2).current.digit? = none) : counting.ReadsAlike other halt r .atom := by
  intro h behind
  have hskip := h.further (counting.advances_skip [.leftParen, .question] hrest (by decide))
  have hcurrent := current_append behind hskip.hasEnd
  have hunexpected := unexpected_append behind hskip.hasEnd
  obtain ⟨_, offset, opened⟩ := r
  subst hrest
  rw [read, read, atom_unknownGroup rfl hcolon hequals hdigit,
    atom_unknownGroup rfl (hcurrent ▸ hcolon) (hcurrent ▸ hequals) (hcurrent ▸ hdigit)]
  refine congrArg Except.error ((congrArg other.refuse hunexpected).trans ?_)
  exact h.refuse_eq _

theorem readsAlike_noAtom (hparen : r.current ≠ .leftParen)
    (hsymbol : ∀ c, r.current ≠ .symbol c) : counting.ReadsAlike other halt r .atom := by
  intro h behind
  have hcurrent := current_append behind h.hasEnd
  rw [read, read, atom_unexpected hparen hsymbol,
    atom_unexpected (hcurrent ▸ hparen) (hcurrent ▸ hsymbol), unexpected_append behind h.hasEnd,
    h.refuse_eq]
  rfl

theorem readsAlike_calls :
    KeptByCalls (counting.ReadsAlike other halt) (counting.ResumesAlike other halt) where
  alternative := readsAlike_alternative
  bar := resumesAlike_bar
  noBar := resumesAlike_noBar
  concatenation := readsAlike_concatenation
  stop := resumesAlike_stop
  juxtapose := resumesAlike_juxtapose
  iteration := readsAlike_iteration
  symbol := readsAlike_symbol
  group := readsAlike_group
  lookahead := readsAlike_lookahead
  link := readsAlike_link
  noKind := readsAlike_noKind
  capture := readsAlike_capture
  noAtom := readsAlike_noAtom

/-- Readers that count alike read alike, whatever stands behind the end. -/
theorem readsAlike (r : Reader) (form : Form) : counting.ReadsAlike other halt r form :=
  readsAlike_calls.holds r form

end

/-! ## The numbers of a word -/

section

variable {size : Nat} {overflow : Overflow} {r next : Reader}

theorem word_next_of_lt {opened : Nat} (h : opened + 1 < size) :
    (word size overflow).next opened = .ok (opened + 1) :=
  if_pos h

theorem Advances.reach_le (h : unbounded.Advances r next) : next.reach ≤ r.reach := by
  induction h with
  | refl => exact Nat.le_refl _
  | tail _ hstep ih =>
      refine Nat.le_trans ?_ ih
      obtain ⟨token, -, hrest, -, hsame | ⟨rfl, hnext⟩⟩ := hstep.exists_token
      · rw [reach, reach, hrest, hsame]
        exact Nat.add_le_add_left List.count_le_count_cons _
      · have hindex := Except.ok.inj hnext
        rw [reach, reach, hrest, List.count_cons_self, ← hindex]
        omega

/-- Where the parentheses cannot fill the word, the numbers in it are those without a bound. -/
theorem countsAlike_word (hend : .endOfInput ∈ r.rest) (hfit : r.reach < size) :
    CountsAlike unbounded (word size overflow) .refused r where
  hasEnd := hend
  refuse_eq _ := rfl
  next_eq {place} hway hparen := by
    have hreach := hway.reach_le
    have hlt := opened_lt_reach hparen
    exact word_next_of_lt (by omega)

end

end Counting

/-! ## Whole texts -/

namespace Pattern

theorem finish_append {start : Reader} (whole : Reading start) (behind : List Token)
    (hend : .endOfInput ∈ whole.next.rest) : finish (whole.append behind) = finish whole := by
  rw [finish, whole.current_next_append behind hend]
  rfl

theorem bind_finish_word {size : Nat} (overflow : Counting.Overflow) {r : Reader}
    (hend : .endOfInput ∈ r.rest) (hfit : r.reach < size) :
    (((Counting.word size overflow).alternative r).bind fun whole =>
        (Counting.word size overflow).lift (finish whole))
      = (r.alternative.bind finish).mapError .refused := by
  have happend : r.append [] = r := by simp [Reader.append]
  have hread : (Counting.word size overflow).alternative (r.append []) = _ :=
    Counting.readsAlike r .alternative (Counting.countsAlike_word hend hfit) []
  calc ((Counting.word size overflow).alternative r).bind fun whole =>
        (Counting.word size overflow).lift (finish whole)
    _ = ((Counting.word size overflow).alternative (r.append [])).bind fun whole =>
          (Counting.word size overflow).lift (finish whole) := by rw [happend]
    _ = (r.alternative.bind finish).mapError .refused := by
        rw [hread]
        cases hwhole : r.alternative with
        | error e =>
            rw [show Counting.unbounded.read r .alternative = .error e from hwhole]
            rfl
        | ok whole =>
            have hbehind := (Counting.advances_of_read .alternative hwhole).mem_rest hend
            rw [show Counting.unbounded.read r .alternative = .ok whole from hwhole,
              Counting.carry, Except.bind, finish_append whole [] hbehind, Except.bind]
            cases finish whole <;> rfl

/-- A text whose parentheses cannot fill the word is read in the word as it is without a bound. -/
theorem parseBy_word (size : Nat) (overflow : Counting.Overflow) {text : String}
    (hfit : text.toList.count '(' < size) :
    parseBy (.word size overflow) text = (parse text).mapError .refused := by
  rw [parse_eq_bind]
  unfold parseBy
  cases hscan : Token.scan text with
  | error e => rfl
  | ok tokens =>
      obtain ⟨-, rfl⟩ := Token.scanFrom_eq_ok_iff.1 hscan
      refine bind_finish_word overflow (List.mem_append_right _ (List.mem_singleton_self _)) ?_
      rw [Reader.reach, List.count_append, Token.count_leftParen_ofChars]
      simpa using hfit

end Pattern

end PatternGrammar
