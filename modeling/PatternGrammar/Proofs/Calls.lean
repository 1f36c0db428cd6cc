import PatternGrammar.Pattern.Reader
import PatternGrammar.Proofs.Notation

set_option autoImplicit false

/-! # The calls of the reader

The equations of the four functions, one for each way on from a place and the same for every
counting, with the induction on their calls (`Reader.KeptByCalls`) and what stands behind the text
that one of them reads. Below them are the equations of the reader that counts without a bound. -/

namespace PatternGrammar

theorem Token.eq_symbol_of_digit? {token : Token} {index : Nat} (h : token.digit? = some index) :
    ∃ c, token = .symbol c ∧ c.isDigit := by
  cases token with
  | symbol c => exact ⟨c, rfl, (Option.ite_none_right_eq_some.1 h).1⟩
  | _ => exact nomatch h

/-- The token and the position that an error names, if it is about a token. -/
def SyntaxError.place? : SyntaxError → Option (Token × Nat)
  | unexpectedToken found position => some (found, position)
  | expectedToken _ found position => some (found, position)
  | expectedEnd found position => some (found, position)
  | invalidCharacter _ _ | tooManyCaptures _ => none

theorem exists_of_bind_eq_ok {ε α β : Type} {x : Except ε α} {f : α → Except ε β} {b : β}
    (h : x.bind f = .ok b) : ∃ a, x = .ok a ∧ f a = .ok b := by
  cases x with
  | error e => cases h
  | ok a => exact ⟨a, rfl, h⟩

/-! ## Places and readings -/

namespace Reader

variable {r : Reader} {token : Token} {rest : List Token}

theorem current_of_rest (h : r.rest = token :: rest) : r.current = token :=
  congrArg (List.headD · _) h

theorem rest_eq_of_current (h : r.current = token) (hne : token ≠ .endOfInput) :
    ∃ tail, r.rest = token :: tail := by
  obtain ⟨_ | ⟨first, tail⟩, offset, opened⟩ := r
  · exact absurd h.symm hne
  · exact ⟨tail, congrArg (· :: tail) h⟩

theorem current_ne (hne : token ≠ .endOfInput) (h : ∀ tail, r.rest ≠ token :: tail) :
    r.current ≠ token := by
  intro hcurrent
  obtain ⟨tail, htail⟩ := rest_eq_of_current hcurrent hne
  exact h tail htail

theorem skip_skip (r : Reader) (first second : Nat) :
    (r.skip first).skip second = r.skip (first + second) := by
  simp [skip, Nat.add_assoc]

theorem length_skip_le (r : Reader) (count : Nat) :
    (r.skip count).rest.length ≤ r.rest.length := by
  rw [length_skip]
  exact Nat.sub_le ..

theorem length_skip_lt (h : r.rest = token :: rest) (count : Nat) :
    (r.skip (count + 1)).rest.length < r.rest.length := by
  rw [length_skip, h]
  exact Nat.sub_lt (Nat.succ_pos _) (Nat.succ_pos _)

theorem length_openAs_le (r : Reader) (index : Nat) :
    (r.openAs index).rest.length ≤ r.rest.length :=
  r.length_skip_le 1

/-- The tokens that end a concatenation. -/
def Stops (token : Token) : Prop :=
  token = .bar ∨ token = .rightParen ∨ token = .endOfInput

theorem Stops.ne_star (h : Stops token) : token ≠ .star := by
  rcases h with rfl | rfl | rfl <;> decide

end Reader

namespace Reading

variable {start : Reader} {done : Reading start}

theorem close_of_rightParen (h : done.next.current = .rightParen) :
    done.close = .ok (done.extend done.pattern (done.next.skip 1) (done.next.length_skip_le 1)) :=
  if_pos h

theorem close_of_not_rightParen (h : done.next.current ≠ .rightParen) :
    done.close = .error (.expectedToken ')' done.next.current done.next.offset) :=
  if_neg h

theorem stars_of_star {rest : List Token} (h : done.next.rest = .star :: rest) :
    done.stars = (done.extend (.star done.pattern) (done.next.skip 1)
      (done.next.length_skip_le 1)).stars := by
  rw [stars]
  split
  · rfl
  next hnone => exact absurd h (hnone rest)

theorem stars_stop (h : done.next.current ≠ .star) : done.stars = done := by
  rw [stars]
  split
  next hstar => exact absurd (Reader.current_of_rest hstar) h
  · rfl

/-- No star follows on the stars that were taken. -/
theorem stars_ends (done : Reading start) : done.stars.next.current ≠ .star := by
  fun_induction stars done with
  | case1 done tail hstar ih => exact ih
  | case2 done hnone => exact Reader.current_ne (by decide) hnone

end Reading

/-! ## The equations of the reader -/

namespace Counting

open Reader

section

variable {ε : Type} {counting : Counting ε} {start r : Reader} {done : Reading start}
  {rest : List Token}

theorem lift_unbounded {α : Type} (x : Except SyntaxError α) : unbounded.lift x = x := by
  cases x <;> rfl

theorem alternative_eq (r : Reader) :
    counting.alternative r = (counting.concatenation r).bind counting.moreAlternatives := by
  rw [alternative]
  rfl

theorem moreAlternatives_bar (h : done.next.rest = .bar :: rest) :
    counting.moreAlternatives done = (counting.concatenation (done.next.skip 1)).bind fun right =>
      counting.moreAlternatives (done.extend (.alt done.pattern right.pattern) right.next
        (Nat.le_trans (Nat.le_of_lt right.progress) (done.next.length_skip_le 1))) := by
  rw [moreAlternatives]
  split
  · rfl
  next hnone => exact absurd h (hnone rest)

theorem moreAlternatives_stop (h : done.next.current ≠ .bar) :
    counting.moreAlternatives done = .ok done := by
  rw [moreAlternatives]
  split
  next hbar => exact absurd (current_of_rest hbar) h
  · rfl

theorem concatenation_eq (r : Reader) :
    counting.concatenation r = (counting.iteration r).bind counting.moreIterations := by
  rw [concatenation]
  rfl

theorem moreIterations_stop (h : Stops done.next.current) :
    counting.moreIterations done = .ok done := by
  rw [moreIterations]
  rcases h with h | h | h
  all_goals
    rw [h]

theorem moreIterations_go (h : ¬ Stops done.next.current) :
    counting.moreIterations done = (counting.iteration done.next).bind fun right =>
      counting.moreIterations (done.extend (.concat done.pattern right.pattern) right.next
        (Nat.le_of_lt right.progress)) := by
  rw [moreIterations]
  split
  next hbar => exact absurd (.inl hbar) h
  next hparen => exact absurd (.inr (.inl hparen)) h
  next hend => exact absurd (.inr (.inr hend)) h
  · rfl

theorem iteration_eq (r : Reader) :
    counting.iteration r = (counting.atom r).bind fun inner => .ok inner.stars := by
  rw [iteration]
  rfl

theorem atom_symbol {c : Char} (h : r.rest = .symbol c :: rest) :
    counting.atom r = .ok ⟨.symbol c, r.skip 1, length_skip_lt h 0⟩ := by
  generalize length_skip_lt h 0 = progress
  obtain ⟨_, offset, opened⟩ := r
  subst h
  rw [atom]

theorem atom_group (h : r.rest = .leftParen :: .question :: .colon :: rest) :
    counting.atom r = (counting.alternative (r.skip 3)).bind fun body =>
      counting.lift (body.within .group (r.length_skip_le 3)).close := by
  obtain ⟨_, offset, opened⟩ := r
  subst h
  rw [atom]
  rfl

theorem atom_lookahead (h : r.rest = .leftParen :: .question :: .equals :: rest) :
    counting.atom r = (counting.alternative (r.skip 3)).bind fun body =>
      counting.lift (body.within .lookahead (r.length_skip_le 3)).close := by
  obtain ⟨_, offset, opened⟩ := r
  subst h
  rw [atom]
  rfl

theorem atom_link {token : Token} {index : Nat}
    (h : r.rest = .leftParen :: .question :: token :: rest) (hindex : token.digit? = some index) :
    counting.atom r
      = counting.lift (Reading.close ⟨.link index, r.skip 3, length_skip_lt h 2⟩) := by
  generalize length_skip_lt h 2 = progress
  obtain ⟨_, offset, opened⟩ := r
  subst h
  cases token with
  | symbol c =>
      rw [atom]
      simp only [skip, current, List.drop_succ_cons, List.drop_zero, List.headD_cons]
      rw [hindex]
  | _ => exact nomatch hindex

theorem atom_capture (h : r.rest = .leftParen :: rest) (hnot : (r.skip 1).current ≠ .question) :
    counting.atom r = (counting.next r.opened).bind fun index =>
      (counting.alternative (r.openAs index)).bind fun body =>
        counting.lift (body.within (.capture · index) (r.length_openAs_le index)).close := by
  obtain ⟨_, offset, opened⟩ := r
  subst h
  cases rest with
  | nil =>
      rw [atom]
      rfl
  | cons token rest =>
      cases token with
      | question => exact absurd rfl hnot
      | _ =>
          rw [atom]
          rfl

theorem atom_unknownGroup (h : r.rest = .leftParen :: .question :: rest)
    (hcolon : (r.skip 2).current ≠ .colon) (hequals : (r.skip 2).current ≠ .equals)
    (hdigit : (r.skip 2).current.digit? = none) :
    counting.atom r = .error (counting.refuse (r.skip 2).unexpected) := by
  obtain ⟨_, offset, opened⟩ := r
  subst h
  cases rest with
  | nil =>
      rw [atom]
      rfl
  | cons token rest =>
      cases token with
      | colon => exact absurd rfl hcolon
      | equals => exact absurd rfl hequals
      | symbol c =>
          rw [atom]
          simp only [hdigit]
      | _ =>
          rw [atom]
          rfl

theorem atom_unexpected (hparen : r.current ≠ .leftParen) (hsymbol : ∀ c, r.current ≠ .symbol c) :
    counting.atom r = .error (counting.refuse r.unexpected) := by
  obtain ⟨_ | ⟨token, rest⟩, offset, opened⟩ := r
  · rw [atom]
  · cases token with
    | leftParen => exact absurd rfl hparen
    | symbol c => exact absurd rfl (hsymbol c)
    | _ => rw [atom]

end

variable {ε : Type}

/-- Reads a form from its beginning. -/
def read (counting : Counting ε) (r : Reader) : Form → Except ε (Reading r)
  | .alternative => counting.alternative r
  | .concatenation => counting.concatenation r
  | .iteration => counting.iteration r
  | .atom => counting.atom r

/-- Goes on with a form of which something was read. -/
def resume (counting : Counting ε) {start : Reader} (done : Reading start) :
    Form → Except ε (Reading start)
  | .alternative => counting.moreAlternatives done
  | .concatenation => counting.moreIterations done
  | .iteration => .ok done.stars
  | .atom => .ok done

/-! ## What stands behind a form -/

variable {counting : Counting ε} {r : Reader}

theorem ne_star_of_iteration {done : Reading r} (h : counting.iteration r = .ok done) :
    done.next.current ≠ .star := by
  rw [iteration_eq] at h
  obtain ⟨inner, -, h⟩ := exists_of_bind_eq_ok h
  exact Except.ok.inj h ▸ inner.stars_ends

theorem stops_of_moreIterations {start : Reader} {done result : Reading start}
    (h : counting.moreIterations done = .ok result) : Stops result.next.current := by
  by_cases hstop : Stops done.next.current
  · rw [moreIterations_stop hstop] at h
    exact Except.ok.inj h ▸ hstop
  · rw [moreIterations_go hstop] at h
    obtain ⟨right, -, h⟩ := exists_of_bind_eq_ok h
    exact stops_of_moreIterations h
termination_by done.next.rest.length
decreasing_by exact right.progress

theorem stops_of_concatenation {done : Reading r} (h : counting.concatenation r = .ok done) :
    Stops done.next.current := by
  rw [concatenation_eq] at h
  obtain ⟨first, -, h⟩ := exists_of_bind_eq_ok h
  exact stops_of_moreIterations h

theorem ends_of_moreAlternatives {start : Reader} {done result : Reading start}
    (hdone : Stops done.next.current) (h : counting.moreAlternatives done = .ok result) :
    result.next.current = .rightParen ∨ result.next.current = .endOfInput := by
  by_cases hbar : done.next.current = .bar
  · obtain ⟨tail, htail⟩ := rest_eq_of_current hbar (by decide)
    rw [moreAlternatives_bar htail] at h
    obtain ⟨right, hright, h⟩ := exists_of_bind_eq_ok h
    have hstops := stops_of_concatenation hright
    exact ends_of_moreAlternatives hstops h
  · rw [moreAlternatives_stop hbar] at h
    exact Except.ok.inj h ▸ hdone.resolve_left hbar
termination_by done.next.rest.length
decreasing_by exact Nat.lt_of_lt_of_le right.progress (done.next.length_skip_le 1)

/-- Behind an alternation stands a closing parenthesis or the end. -/
theorem ends_of_alternative {done : Reading r} (h : counting.alternative r = .ok done) :
    done.next.current = .rightParen ∨ done.next.current = .endOfInput := by
  rw [alternative_eq] at h
  obtain ⟨first, hfirst, h⟩ := exists_of_bind_eq_ok h
  exact ends_of_moreAlternatives (stops_of_concatenation hfirst) h

end Counting

/-! ## Induction on the calls -/

namespace Reader

/-- What is to be shown in order that `P` holds wherever a form is read and `Q` wherever a reading
    is gone on with: each call may rely on the ones that it makes. The cases are those of the
    equations above. -/
structure KeptByCalls (P : Reader → Form → Prop)
    (Q : {start : Reader} → Reading start → Form → Prop) : Prop where
  alternative {r : Reader} : P r .concatenation → (∀ first : Reading r, Q first .alternative) →
    P r .alternative
  bar {start : Reader} {done : Reading start} {tail : List Token} :
    done.next.rest = .bar :: tail → P (done.next.skip 1) .concatenation →
    (∀ (right : Reading (done.next.skip 1)) further,
      Q (done.extend (.alt done.pattern right.pattern) right.next further) .alternative) →
    Q done .alternative
  noBar {start : Reader} {done : Reading start} : done.next.current ≠ .bar → Q done .alternative
  concatenation {r : Reader} : P r .iteration → (∀ first : Reading r, Q first .concatenation) →
    P r .concatenation
  stop {start : Reader} {done : Reading start} : Stops done.next.current → Q done .concatenation
  juxtapose {start : Reader} {done : Reading start} :
    ¬ Stops done.next.current → P done.next .iteration →
    (∀ (right : Reading done.next) further,
      Q (done.extend (.concat done.pattern right.pattern) right.next further) .concatenation) →
    Q done .concatenation
  iteration {r : Reader} : P r .atom → P r .iteration
  symbol {r : Reader} {c : Char} {tail : List Token} : r.rest = .symbol c :: tail → P r .atom
  group {r : Reader} {tail : List Token} :
    r.rest = .leftParen :: .question :: .colon :: tail → P (r.skip 3) .alternative → P r .atom
  lookahead {r : Reader} {tail : List Token} :
    r.rest = .leftParen :: .question :: .equals :: tail → P (r.skip 3) .alternative → P r .atom
  link {r : Reader} {c : Char} {tail : List Token} :
    r.rest = .leftParen :: .question :: .symbol c :: tail → c.isDigit → P r .atom
  noKind {r : Reader} {tail : List Token} : r.rest = .leftParen :: .question :: tail →
    (r.skip 2).current ≠ .colon → (r.skip 2).current ≠ .equals →
    (r.skip 2).current.digit? = none → P r .atom
  capture {r : Reader} {tail : List Token} : r.rest = .leftParen :: tail →
    (r.skip 1).current ≠ .question → (∀ index, P (r.openAs index) .alternative) → P r .atom
  noAtom {r : Reader} : r.current ≠ .leftParen → (∀ c, r.current ≠ .symbol c) → P r .atom

/-- What is kept by the calls holds of all of them. -/
theorem KeptByCalls.holds {P : Reader → Form → Prop}
    {Q : {start : Reader} → Reading start → Form → Prop} (kept : KeptByCalls P Q) (r : Reader)
    (form : Form) : P r form := by
  have hforms := Counting.alternative.mutual_induct (P · .alternative)
    (fun _ done => Q done .alternative) (P · .concatenation)
    (fun _ done => Q done .concatenation) (P · .iteration) (P · .atom)
    (fun _ => kept.alternative) ?bar ?noBar (fun _ => kept.concatenation) ?stopBar ?stopParen
    ?stopEnd ?juxtapose (fun _ => kept.iteration) (fun _ _ _ => kept.symbol)
    (fun _ _ => kept.group) (fun _ _ => kept.lookahead) ?link ?noKind ?capture ?noAtom
  case bar =>
    intro start done tail hbar hlast hmore
    exact kept.bar hbar hlast fun right _ => hmore right
  case noBar =>
    intro start done hnone
    exact kept.noBar (current_ne (by decide) hnone)
  case stopBar => exact fun start done h => kept.stop (.inl h)
  case stopParen => exact fun start done h => kept.stop (.inr (.inl h))
  case stopEnd => exact fun start done h => kept.stop (.inr (.inr h))
  case juxtapose =>
    intro start done hbar hparen hend hlast hmore
    have hgo : ¬ Stops done.next.current := by
      rintro (h | h | h)
      · exact hbar h
      · exact hparen h
      · exact hend h
    exact kept.juxtapose hgo hlast fun right _ => hmore right
  case link =>
    intro r tail _ _ hrest index hindex
    obtain ⟨c, hc, isDigit⟩ := Token.eq_symbol_of_digit? hindex
    obtain ⟨behind, hbehind⟩ := rest_eq_of_current hc (by simp)
    obtain rfl : tail = .symbol c :: behind := by simpa [skip, hrest] using hbehind
    exact kept.link hrest isDigit
  case capture =>
    intro r tail _ _ hquestion hrest hbody
    refine kept.capture hrest (current_ne (by decide) ?_) hbody
    intro behind h
    exact hquestion behind (by simpa [skip, hrest] using h)
  case noKind =>
    intro r tail hcolon hequals hrest hnone
    have hbehind : (r.skip 2).rest = tail := by simp [skip, hrest]
    exact kept.noKind hrest (current_ne (by decide) (hbehind ▸ hcolon))
      (current_ne (by decide) (hbehind ▸ hequals)) hnone
  case noAtom =>
    intro r hsymbol _ _ _ hparen
    exact kept.noAtom (current_ne (by decide) hparen) fun c => current_ne (by simp) (hsymbol c)
  obtain ⟨halternative, -, hconcatenation, -, hiteration, hatom⟩ := hforms
  cases form with
  | alternative => exact halternative r
  | concatenation => exact hconcatenation r
  | iteration => exact hiteration r
  | atom => exact hatom r

/-! ## Counting without a bound

The functions and equations above, for the reader that whole texts are read with. -/

/-- The place behind a parenthesis that opens one more capture. -/
def openCapture (r : Reader) : Reader :=
  r.openAs (r.opened + 1)

theorem length_openCapture_le (r : Reader) : r.openCapture.rest.length ≤ r.rest.length :=
  r.length_openAs_le (r.opened + 1)

section

variable {start : Reader}

def alternative (r : Reader) : Except SyntaxError (Reading r) :=
  Counting.unbounded.alternative r

def moreAlternatives (done : Reading start) : Except SyntaxError (Reading start) :=
  Counting.unbounded.moreAlternatives done

def concatenation (r : Reader) : Except SyntaxError (Reading r) :=
  Counting.unbounded.concatenation r

def moreIterations (done : Reading start) : Except SyntaxError (Reading start) :=
  Counting.unbounded.moreIterations done

def iteration (r : Reader) : Except SyntaxError (Reading r) :=
  Counting.unbounded.iteration r

def atom (r : Reader) : Except SyntaxError (Reading r) :=
  Counting.unbounded.atom r

/-- Reads a form from its beginning. -/
def read (r : Reader) : Form → Except SyntaxError (Reading r)
  | .alternative => r.alternative
  | .concatenation => r.concatenation
  | .iteration => r.iteration
  | .atom => r.atom

/-- Goes on with a form of which something was read. -/
def resume (done : Reading start) : Form → Except SyntaxError (Reading start)
  | .alternative => moreAlternatives done
  | .concatenation => moreIterations done
  | .iteration => .ok done.stars
  | .atom => .ok done

variable {r : Reader} {done : Reading start} {rest : List Token}

theorem alternative_eq (r : Reader) : r.alternative = r.concatenation.bind moreAlternatives :=
  Counting.alternative_eq r

theorem moreAlternatives_bar (h : done.next.rest = .bar :: rest) :
    moreAlternatives done = (concatenation (done.next.skip 1)).bind fun right =>
      moreAlternatives (done.extend (.alt done.pattern right.pattern) right.next
        (Nat.le_trans (Nat.le_of_lt right.progress) (done.next.length_skip_le 1))) :=
  Counting.moreAlternatives_bar h

theorem moreAlternatives_stop (h : done.next.current ≠ .bar) :
    moreAlternatives done = .ok done :=
  Counting.moreAlternatives_stop h

theorem concatenation_eq (r : Reader) : r.concatenation = r.iteration.bind moreIterations :=
  Counting.concatenation_eq r

theorem moreIterations_stop (h : Stops done.next.current) : moreIterations done = .ok done :=
  Counting.moreIterations_stop h

theorem moreIterations_go (h : ¬ Stops done.next.current) :
    moreIterations done = (iteration done.next).bind fun right =>
      moreIterations (done.extend (.concat done.pattern right.pattern) right.next
        (Nat.le_of_lt right.progress)) :=
  Counting.moreIterations_go h

theorem iteration_eq (r : Reader) :
    r.iteration = r.atom.bind fun inner => .ok inner.stars :=
  Counting.iteration_eq r

theorem atom_symbol {c : Char} (h : r.rest = .symbol c :: rest) :
    r.atom = .ok ⟨.symbol c, r.skip 1, length_skip_lt h 0⟩ :=
  Counting.atom_symbol h

theorem atom_group (h : r.rest = .leftParen :: .question :: .colon :: rest) :
    r.atom = (r.skip 3).alternative.bind fun body =>
      (body.within .group (r.length_skip_le 3)).close := by
  have hatom := Counting.unbounded.atom_group h
  simp only [Counting.lift_unbounded] at hatom
  exact hatom

theorem atom_lookahead (h : r.rest = .leftParen :: .question :: .equals :: rest) :
    r.atom = (r.skip 3).alternative.bind fun body =>
      (body.within .lookahead (r.length_skip_le 3)).close := by
  have hatom := Counting.unbounded.atom_lookahead h
  simp only [Counting.lift_unbounded] at hatom
  exact hatom

theorem atom_link {token : Token} {index : Nat}
    (h : r.rest = .leftParen :: .question :: token :: rest) (hindex : token.digit? = some index) :
    r.atom = Reading.close ⟨.link index, r.skip 3, length_skip_lt h 2⟩ :=
  (Counting.atom_link h hindex).trans (Counting.lift_unbounded _)

theorem atom_capture (h : r.rest = .leftParen :: rest) (hnot : r.openCapture.current ≠ .question) :
    r.atom = r.openCapture.alternative.bind fun body =>
      (body.within (.capture · (r.opened + 1)) r.length_openCapture_le).close := by
  have hatom := Counting.unbounded.atom_capture h hnot
  simp only [Counting.lift_unbounded] at hatom
  exact hatom

theorem atom_unknownGroup (h : r.rest = .leftParen :: .question :: rest)
    (hcolon : (r.skip 2).current ≠ .colon) (hequals : (r.skip 2).current ≠ .equals)
    (hdigit : (r.skip 2).current.digit? = none) : r.atom = .error (r.skip 2).unexpected :=
  Counting.atom_unknownGroup h hcolon hequals hdigit

theorem atom_unexpected (hparen : r.current ≠ .leftParen) (hsymbol : ∀ c, r.current ≠ .symbol c) :
    r.atom = .error r.unexpected :=
  Counting.atom_unexpected hparen hsymbol

end

end Reader

end PatternGrammar
