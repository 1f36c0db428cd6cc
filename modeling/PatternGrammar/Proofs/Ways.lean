import Mathlib.Logic.Relation
import PatternGrammar.Proofs.Calls

set_option autoImplicit false

/-! # The ways of the reader

The reader goes over one token at a time and never over the end (`Counting.Step`), whatever the
tokens are and however it counts. Where a form is read to and where it is refused are places that it
gets to by such steps (`Counting.readsInside`), so what a step does to a place is all that has to be
known about reading in order to know where it ends. -/

namespace PatternGrammar

namespace Counting

open Reader

variable {ε : Type} {counting : Counting ε} {r start next : Reader}

/-- The reader goes over one token, which is not the end. Only at a left parenthesis the number of
    captures may be another one behind it. -/
inductive Step (counting : Counting ε) (r : Reader) : Reader → Prop where
  | skip (h : r.current ≠ .endOfInput) : Step counting r (r.skip 1)
  | openAs {index : Nat} (h : r.current = .leftParen) (hnext : counting.next r.opened = .ok index) :
      Step counting r (r.openAs index)

/-- A place that the reader gets to by any number of steps. -/
def Advances (counting : Counting ε) : Reader → Reader → Prop :=
  Relation.ReflTransGen counting.Step

theorem Step.exists_token (h : counting.Step r next) :
    ∃ token ≠ .endOfInput, r.rest = token :: next.rest ∧ next.offset = r.offset + 1
      ∧ (next.opened = r.opened
        ∨ token = .leftParen ∧ counting.next r.opened = .ok next.opened) := by
  have hrest (hcurrent : r.current ≠ .endOfInput) : r.rest = r.current :: (r.skip 1).rest := by
    obtain ⟨_ | ⟨token, tail⟩, offset, opened⟩ := r
    · exact absurd rfl hcurrent
    · rfl
  cases h with
  | skip h => exact ⟨r.current, h, hrest h, rfl, .inl rfl⟩
  | openAs h hnext =>
      have hend : r.current ≠ .endOfInput := by simp [h]
      exact ⟨r.current, hend, hrest hend, rfl, .inr ⟨h, hnext⟩⟩

/-- The tokens between two places of a way do not contain the end. -/
theorem Advances.exists_taken (h : counting.Advances r next) :
    ∃ taken, .endOfInput ∉ taken ∧ r.rest = taken ++ next.rest
      ∧ next.offset = r.offset + taken.length := by
  induction h with
  | refl => exact ⟨[], List.not_mem_nil, rfl, rfl⟩
  | tail _ hstep ih =>
      obtain ⟨taken, hend, hrest, hoffset⟩ := ih
      obtain ⟨token, htoken, hrest', hoffset', -⟩ := hstep.exists_token
      refine ⟨taken ++ [token], ?_, ?_, ?_⟩
      · rw [List.mem_append, List.mem_singleton, not_or]
        exact ⟨hend, htoken.symm⟩
      · rw [hrest, hrest', List.append_assoc, List.singleton_append]
      · rw [hoffset', hoffset, List.length_append, List.length_singleton, Nat.add_assoc]

/-- The end stays in front of the reader. -/
theorem Advances.mem_rest (h : counting.Advances r next) (hend : .endOfInput ∈ r.rest) :
    .endOfInput ∈ next.rest := by
  obtain ⟨taken, hnot, hrest, -⟩ := h.exists_taken
  rw [hrest, List.mem_append] at hend
  exact hend.resolve_left hnot

theorem advances_skip (counting : Counting ε) (taken : List Token) {tail : List Token}
    (hrest : r.rest = taken ++ tail) (hend : .endOfInput ∉ taken) :
    counting.Advances r (r.skip taken.length) := by
  induction taken generalizing r with
  | nil => exact .refl
  | cons token taken ih =>
      rw [List.mem_cons, not_or] at hend
      have hcurrent : r.current = token := current_of_rest hrest
      have htail : (r.skip 1).rest = taken ++ tail := congrArg (List.drop 1) hrest
      have hway := ih htail hend.2
      rw [skip_skip, Nat.add_comm] at hway
      exact .head (.skip (hcurrent ▸ Ne.symm hend.1)) hway

/-! ## Where reading gets to -/

/-- An outcome of reading from `r` on: the place behind what was read can be reached, or the place
    of the error, or a left parenthesis whose capture was not counted. -/
def StaysInside (counting : Counting ε) (r : Reader) {start : Reader} :
    Except ε (Reading start) → Prop
  | .ok done => counting.Advances r done.next
  | .error halt => ∃ place, counting.Advances r place
      ∧ ((∃ e, halt = counting.refuse e ∧ e.place? = some (place.current, place.offset))
        ∨ place.current = .leftParen ∧ counting.next place.opened = .error halt)

theorem StaysInside.after {x : Except ε (Reading start)} (h : counting.StaysInside next x)
    (hway : counting.Advances r next) : counting.StaysInside r x := by
  cases x with
  | ok done => exact hway.trans h
  | error halt =>
      obtain ⟨place, hplace, hhalt⟩ := h
      exact ⟨place, hway.trans hplace, hhalt⟩

theorem StaysInside.bind {inner : Reader} {x : Except ε (Reading inner)}
    {f : Reading inner → Except ε (Reading start)} (hx : counting.StaysInside r x)
    (hf : ∀ done : Reading inner, counting.StaysInside done.next (f done)) :
    counting.StaysInside r (x.bind f) := by
  cases x with
  | ok done => exact (hf done).after hx
  | error halt => exact hx

theorem staysInside_refuse {e : SyntaxError} (he : e.place? = some (r.current, r.offset)) :
    counting.StaysInside r (.error (counting.refuse e) : Except ε (Reading start)) :=
  ⟨r, .refl, .inl ⟨e, rfl, he⟩⟩

theorem staysInside_close (done : Reading start) :
    counting.StaysInside done.next (counting.lift done.close) := by
  by_cases hparen : done.next.current = .rightParen
  · rw [Reading.close_of_rightParen hparen]
    exact .single (.skip (by rw [hparen]; decide))
  · rw [Reading.close_of_not_rightParen hparen]
    exact staysInside_refuse rfl

theorem advances_stars (done : Reading start) : counting.Advances done.next done.stars.next := by
  fun_induction Reading.stars done with
  | case1 done tail hstar ih =>
      have hcurrent := current_of_rest hstar
      exact .head (.skip (by rw [hcurrent]; decide)) ih
  | case2 done hnone => exact .refl

/-- Reading a form does not leave the tokens. -/
def ReadsInside (counting : Counting ε) (r : Reader) (form : Form) : Prop :=
  counting.StaysInside r (counting.read r form)

/-- Going on with a form does not leave the tokens. -/
def ResumesInside (counting : Counting ε) {start : Reader} (done : Reading start) (form : Form) :
    Prop :=
  counting.StaysInside done.next (counting.resume done form)

section

variable {done : Reading start} {tail : List Token}

theorem readsInside_alternative (hfirst : counting.ReadsInside r .concatenation)
    (hmore : ∀ first : Reading r, counting.ResumesInside first .alternative) :
    counting.ReadsInside r .alternative := by
  rw [ReadsInside, read, alternative_eq]
  exact StaysInside.bind hfirst hmore

theorem resumesInside_bar (hbar : done.next.rest = .bar :: tail)
    (hlast : counting.ReadsInside (done.next.skip 1) .concatenation)
    (hmore : ∀ (right : Reading (done.next.skip 1)) further,
      counting.ResumesInside (done.extend (.alt done.pattern right.pattern) right.next further)
        .alternative) :
    counting.ResumesInside done .alternative := by
  have hway := counting.advances_skip [.bar] hbar (by decide)
  rw [ResumesInside, resume, moreAlternatives_bar hbar]
  exact (StaysInside.bind hlast fun right => hmore right _).after hway

theorem resumesInside_noBar (hcurrent : done.next.current ≠ .bar) :
    counting.ResumesInside done .alternative := by
  rw [ResumesInside, resume, moreAlternatives_stop hcurrent]
  exact .refl

theorem readsInside_concatenation (hfirst : counting.ReadsInside r .iteration)
    (hmore : ∀ first : Reading r, counting.ResumesInside first .concatenation) :
    counting.ReadsInside r .concatenation := by
  rw [ReadsInside, read, concatenation_eq]
  exact StaysInside.bind hfirst hmore

theorem resumesInside_stop (hstop : Stops done.next.current) :
    counting.ResumesInside done .concatenation := by
  rw [ResumesInside, resume, moreIterations_stop hstop]
  exact .refl

theorem resumesInside_juxtapose (hgo : ¬ Stops done.next.current)
    (hlast : counting.ReadsInside done.next .iteration)
    (hmore : ∀ (right : Reading done.next) further,
      counting.ResumesInside (done.extend (.concat done.pattern right.pattern) right.next further)
        .concatenation) :
    counting.ResumesInside done .concatenation := by
  rw [ResumesInside, resume, moreIterations_go hgo]
  exact StaysInside.bind hlast fun right => hmore right _

theorem readsInside_iteration (hatom : counting.ReadsInside r .atom) :
    counting.ReadsInside r .iteration := by
  rw [ReadsInside, read, iteration_eq]
  exact StaysInside.bind hatom advances_stars

theorem readsInside_symbol {c : Char} (hrest : r.rest = .symbol c :: tail) :
    counting.ReadsInside r .atom := by
  rw [ReadsInside, read, atom_symbol hrest]
  exact counting.advances_skip [.symbol c] hrest (by simp)

/-- The text around a pattern in a group of any kind stands in front of the end. -/
theorem staysInside_bind_close {inner : Reader} {around : Pattern → Pattern}
    {later : inner.rest.length ≤ r.rest.length} (hway : counting.Advances r inner)
    (hbody : counting.ReadsInside inner .alternative) :
    counting.StaysInside r ((counting.alternative inner).bind fun body =>
      counting.lift (body.within around later).close) :=
  (StaysInside.bind hbody fun body => staysInside_close (body.within around later)).after hway

theorem readsInside_group (hrest : r.rest = .leftParen :: .question :: .colon :: tail)
    (hbody : counting.ReadsInside (r.skip 3) .alternative) : counting.ReadsInside r .atom := by
  have hway := counting.advances_skip [.leftParen, .question, .colon] hrest (by decide)
  rw [ReadsInside, read, atom_group hrest]
  exact staysInside_bind_close hway hbody

theorem readsInside_lookahead (hrest : r.rest = .leftParen :: .question :: .equals :: tail)
    (hbody : counting.ReadsInside (r.skip 3) .alternative) : counting.ReadsInside r .atom := by
  have hway := counting.advances_skip [.leftParen, .question, .equals] hrest (by decide)
  rw [ReadsInside, read, atom_lookahead hrest]
  exact staysInside_bind_close hway hbody

theorem readsInside_capture (hrest : r.rest = .leftParen :: tail)
    (hquestion : (r.skip 1).current ≠ .question)
    (hbody : ∀ index, counting.ReadsInside (r.openAs index) .alternative) :
    counting.ReadsInside r .atom := by
  have hcurrent := current_of_rest hrest
  rw [ReadsInside, read, atom_capture hrest hquestion]
  cases hnext : counting.next r.opened with
  | error halt => exact ⟨r, .refl, .inr ⟨hcurrent, hnext⟩⟩
  | ok index => exact staysInside_bind_close (.single (.openAs hcurrent hnext)) (hbody index)

theorem readsInside_link {c : Char}
    (hrest : r.rest = .leftParen :: .question :: .symbol c :: tail) (isDigit : c.isDigit) :
    counting.ReadsInside r .atom := by
  have hway := counting.advances_skip [.leftParen, .question, .symbol c] hrest (by simp)
  rw [ReadsInside, read, atom_link hrest (if_pos isDigit)]
  exact (staysInside_close _).after hway

theorem readsInside_noKind (hrest : r.rest = .leftParen :: .question :: tail)
    (hcolon : (r.skip 2).current ≠ .colon) (hequals : (r.skip 2).current ≠ .equals)
    (hdigit : (r.skip 2).current.digit? = none) : counting.ReadsInside r .atom := by
  have hway := counting.advances_skip [.leftParen, .question] hrest (by decide)
  rw [ReadsInside, read, atom_unknownGroup hrest hcolon hequals hdigit]
  exact (staysInside_refuse rfl).after hway

theorem readsInside_noAtom (hparen : r.current ≠ .leftParen)
    (hsymbol : ∀ c, r.current ≠ .symbol c) : counting.ReadsInside r .atom := by
  rw [ReadsInside, read, atom_unexpected hparen hsymbol]
  exact staysInside_refuse rfl

theorem readsInside_calls : KeptByCalls counting.ReadsInside counting.ResumesInside where
  alternative := readsInside_alternative
  bar := resumesInside_bar
  noBar := resumesInside_noBar
  concatenation := readsInside_concatenation
  stop := resumesInside_stop
  juxtapose := resumesInside_juxtapose
  iteration := readsInside_iteration
  symbol := readsInside_symbol
  group := readsInside_group
  lookahead := readsInside_lookahead
  link := readsInside_link
  noKind := readsInside_noKind
  capture := readsInside_capture
  noAtom := readsInside_noAtom

end

/-- From every place the reader ends at places that it gets to by its steps. -/
theorem readsInside (counting : Counting ε) (r : Reader) (form : Form) :
    counting.ReadsInside r form :=
  readsInside_calls.holds r form

theorem advances_of_read (form : Form) {done : Reading r} (h : counting.read r form = .ok done) :
    counting.Advances r done.next := by
  have hinside := counting.readsInside r form
  rw [ReadsInside, h] at hinside
  exact hinside

end Counting

end PatternGrammar
