import PatternGrammar.Proofs.Reading

set_option autoImplicit false

/-! # Derivations that break off

Where the reader gives up, it is in the middle of several forms at once: of each of them it has a
beginning, inside of the one around it. Such a stack of beginnings is a `Beginning`. It has a text,
it says what is missing at its end (`Beginning.gap`), and it says which tokens the reader cannot
take there (`Beginning.Refuses`).

Every beginning can be completed, so its text is the beginning of a derived one. -/

namespace PatternGrammar

/-! ## Groups with a pattern inside -/

/-- The kinds of groups that have a pattern inside. -/
inductive Bracket where
  | group
  | lookahead
  | capture
  deriving DecidableEq

namespace Bracket

/-- The text in front of the pattern inside. -/
def chars : Bracket → List Char
  | group => ['(', '?', ':']
  | lookahead => ['(', '?', '=']
  | capture => ['(']

/-- The derivation of a group with `body` inside. -/
def around : Bracket → Derivation .alternative → Derivation .atom
  | group, body => .group body
  | lookahead, body => .lookahead body
  | capture, body => .capture body

theorem chars_around (bracket : Bracket) (body : Derivation .alternative) :
    (bracket.around body).chars = bracket.chars ++ (body.chars ++ [')']) := by
  cases bracket <;> rfl

theorem inNotation_chars (bracket : Bracket) : Token.InNotation bracket.chars := by
  cases bracket <;> simp [chars, Token.ofChar?]

/-- The tokens of the text in front of the pattern inside. -/
def tokens (bracket : Bracket) : List Token :=
  Token.ofChars bracket.chars

end Bracket

/-! ## Beginnings -/

/-- What is missing where a derivation breaks off. -/
inductive Gap where
  /-- The next item. -/
  | item
  /-- The character behind `(?` that says what kind of group it is. -/
  | kind
  /-- The end of a group with a pattern inside. -/
  | closing
  /-- The end of a link. -/
  | linkClosing
  deriving DecidableEq

/-- The beginnings of a form at whose ends the reader may give up. All parts in front of the last
    one are complete. -/
inductive Beginning : Form → Type where
  | single (first : Beginning .concatenation) : Beginning .alternative
  | bar (before : Derivation .alternative) (last : Beginning .concatenation) :
      Beginning .alternative
  | start (first : Beginning .iteration) : Beginning .concatenation
  | juxtapose (before : Derivation .concatenation) (last : Beginning .iteration) :
      Beginning .concatenation
  | item (inner : Beginning .atom) : Beginning .iteration
  | nothing : Beginning .atom
  | unknown : Beginning .atom
  | inside (bracket : Bracket) (body : Beginning .alternative) : Beginning .atom
  | unclosed (bracket : Bracket) (body : Derivation .alternative) : Beginning .atom
  | unclosedLink (digit : Char) (isDigit : digit.isDigit) : Beginning .atom

namespace Beginning

variable {form : Form}

/-- The text of a beginning. -/
def chars : {form : Form} → Beginning form → List Char
  | _, single first => first.chars
  | _, bar before last => before.chars ++ '|' :: last.chars
  | _, start first => first.chars
  | _, juxtapose before last => before.chars ++ last.chars
  | _, item inner => inner.chars
  | _, nothing => []
  | _, unknown => ['(', '?']
  | _, inside bracket body => bracket.chars ++ body.chars
  | _, unclosed bracket body => bracket.chars ++ body.chars
  | _, unclosedLink digit _ => ['(', '?', digit]

/-- What is missing at the end of a beginning. -/
def gap : {form : Form} → Beginning form → Gap
  | _, single first => first.gap
  | _, bar _ last => last.gap
  | _, start first => first.gap
  | _, juxtapose _ last => last.gap
  | _, item inner => inner.gap
  | _, nothing => .item
  | _, unknown => .kind
  | _, inside _ body => body.gap
  | _, unclosed _ _ => .closing
  | _, unclosedLink _ _ => .linkClosing

/-- The tokens of the text of a beginning. -/
def tokens (b : Beginning form) : List Token :=
  Token.ofChars b.chars

@[simp] theorem tokens_single (first : Beginning .concatenation) :
    (single first).tokens = first.tokens := rfl

@[simp] theorem tokens_bar (before : Derivation .alternative) (last : Beginning .concatenation) :
    (bar before last).tokens = before.tokens ++ .bar :: last.tokens :=
  Token.ofChars_append ..

@[simp] theorem tokens_start (first : Beginning .iteration) :
    (start first).tokens = first.tokens := rfl

@[simp] theorem tokens_juxtapose (before : Derivation .concatenation)
    (last : Beginning .iteration) :
    (juxtapose before last).tokens = before.tokens ++ last.tokens :=
  Token.ofChars_append ..

@[simp] theorem tokens_item (inner : Beginning .atom) : (item inner).tokens = inner.tokens := rfl

@[simp] theorem tokens_nothing : nothing.tokens = [] := rfl

@[simp] theorem tokens_unknown : unknown.tokens = [.leftParen, .question] := rfl

@[simp] theorem tokens_inside (bracket : Bracket) (body : Beginning .alternative) :
    (inside bracket body).tokens = bracket.tokens ++ body.tokens :=
  Token.ofChars_append ..

@[simp] theorem tokens_unclosed (bracket : Bracket) (body : Derivation .alternative) :
    (unclosed bracket body).tokens = bracket.tokens ++ body.tokens :=
  Token.ofChars_append ..

@[simp] theorem tokens_unclosedLink (digit : Char) (isDigit : digit.isDigit) :
    (unclosedLink digit isDigit).tokens = [.leftParen, .question, .symbol digit] := by
  rw [tokens, chars, Token.ofChars_cons rfl, Token.ofChars_cons rfl,
    Token.ofChars_cons (Token.ofChar?_of_isDigit isDigit)]
  rfl

theorem inNotation_chars (b : Beginning form) : Token.InNotation b.chars := by
  induction b with
  | single first ih | start first ih => exact ih
  | item inner ih => exact ih
  | bar before last ih | juxtapose before last ih =>
      simp [chars, Token.ofChar?, before.inNotation_chars, ih]
  | nothing => exact Token.inNotation_nil
  | unknown => simp [chars, Token.ofChar?]
  | inside bracket body ih => simp [chars, bracket.inNotation_chars, ih]
  | unclosed bracket body => simp [chars, bracket.inNotation_chars, body.inNotation_chars]
  | unclosedLink digit isDigit =>
      simp only [chars, Token.inNotation_cons, Token.ofChar?_of_isDigit isDigit]
      exact ⟨rfl, rfl, rfl, Token.inNotation_nil⟩

/-- The tokens with which a derivation that breaks off here cannot go on. The reader notices this
    at the end of the beginning and not before, so a complete part is followed by a token with
    which the reader goes on to the next part, and an opening parenthesis by one that makes it a
    capture. -/
def Refuses : {form : Form} → Beginning form → Token → Prop
  | _, single first, next => first.Refuses next
  | _, bar _ last, next => last.Refuses next
  | _, start first, next => first.Refuses next
  | _, juxtapose _ last, next =>
      last.Refuses next ∧ ¬ Reader.Stops (last.tokens.headD next)
        ∧ last.tokens.headD next ≠ .star
  | _, item inner, next => inner.Refuses next
  | _, nothing, next => ¬ next.Begins
  | _, unknown, next => next ≠ .colon ∧ next ≠ .equals ∧ next.digit? = none
  | _, inside bracket body, next =>
      body.Refuses next ∧ (bracket = .capture → body.tokens.headD next ≠ .question)
  | _, unclosed _ _, next => next = .endOfInput
  | _, unclosedLink _ _, next => next ≠ .rightParen

/-! ## Completions -/

/-- A text that completes the beginning. -/
def missing : {form : Form} → Beginning form → List Char
  | _, single first => first.missing
  | _, bar _ last => last.missing
  | _, start first => first.missing
  | _, juxtapose _ last => last.missing
  | _, item inner => inner.missing
  | _, nothing => ['a']
  | _, unknown => [':', 'a', ')']
  | _, inside _ body => body.missing ++ [')']
  | _, unclosed _ _ => [')']
  | _, unclosedLink _ _ => [')']

/-- The derivation that the beginning is completed to. -/
def completion : {form : Form} → Beginning form → Derivation form
  | _, single first => .single first.completion
  | _, bar before last => .bar before last.completion
  | _, start first => .start first.completion
  | _, juxtapose before last => .juxtapose before last.completion
  | _, item inner => .item inner.completion
  | _, nothing => .symbol 'a' rfl
  | _, unknown => .group (.single (.start (.item (.symbol 'a' rfl))))
  | _, inside bracket body => bracket.around body.completion
  | _, unclosed bracket body => bracket.around body
  | _, unclosedLink digit isDigit => .link digit isDigit

theorem chars_completion (b : Beginning form) : b.completion.chars = b.chars ++ b.missing := by
  induction b with
  | single first ih | start first ih => exact ih
  | item inner ih => exact ih
  | bar before last ih | juxtapose before last ih =>
      simp [completion, missing, chars, Derivation.chars, ih]
  | nothing | unknown | unclosedLink => rfl
  | inside bracket body ih => simp [completion, missing, chars, bracket.chars_around, ih]
  | unclosed bracket body => simp [completion, missing, chars, bracket.chars_around]

/-- If nothing but the end of a group is missing, then parentheses complete the text. -/
theorem missing_of_closing {b : Beginning form} (h : b.gap = .closing) :
    ∃ count, b.missing = List.replicate (count + 1) ')' := by
  induction b with
  | single first ih | start first ih => exact ih h
  | item inner ih => exact ih h
  | bar before last ih | juxtapose before last ih => exact ih h
  | inside bracket body ih =>
      obtain ⟨count, hcount⟩ := ih h
      refine ⟨count + 1, ?_⟩
      rw [missing, hcount, ← List.replicate_succ']
  | unclosed bracket body => exact ⟨0, rfl⟩
  | nothing | unknown | unclosedLink => exact nomatch h

theorem exists_link_end (b : Beginning form) (h : b.gap = .linkClosing) :
    ∃ (before : List Char) (digit : Char),
      digit.isDigit ∧ b.chars = before ++ ['(', '?', digit] := by
  induction b with
  | single first ih | start first ih => exact ih h
  | item inner ih => exact ih h
  | bar before last ih =>
      obtain ⟨front, digit, isDigit, hlast⟩ := ih h
      exact ⟨before.chars ++ '|' :: front, digit, isDigit, by simp [chars, hlast]⟩
  | juxtapose before last ih =>
      obtain ⟨front, digit, isDigit, hlast⟩ := ih h
      exact ⟨before.chars ++ front, digit, isDigit, by simp [chars, hlast]⟩
  | inside bracket body ih =>
      obtain ⟨front, digit, isDigit, hbody⟩ := ih h
      exact ⟨bracket.chars ++ front, digit, isDigit, by simp [chars, hbody]⟩
  | unclosedLink digit isDigit => exact ⟨[], digit, isDigit, rfl⟩
  | nothing | unknown | unclosed => exact nomatch h

end Beginning

/-! ## The end of a link -/

/-- Whatever stands behind a question mark has the property. -/
def BehindMarks (P : List Char → Prop) : List Char → Prop
  | [] => True
  | c :: rest => (c = '?' → P rest) ∧ BehindMarks P rest

section

variable {P Q : List Char → Prop}

@[simp] theorem behindMarks_nil : BehindMarks P [] :=
  trivial

@[simp] theorem behindMarks_cons {c : Char} {rest : List Char} :
    BehindMarks P (c :: rest) ↔ (c = '?' → P rest) ∧ BehindMarks P rest :=
  Iff.rfl

theorem BehindMarks.append {first second : List Char} (hfirst : BehindMarks P first)
    (hsecond : BehindMarks Q second) (h : ∀ rest, P rest → Q (rest ++ second)) :
    BehindMarks Q (first ++ second) := by
  induction first with
  | nil => exact hsecond
  | cons c rest ih => exact ⟨fun hc => h rest (hfirst.1 hc), ih hfirst.2⟩

theorem BehindMarks.behind {before behind : List Char}
    (h : BehindMarks P (before ++ '?' :: behind)) : P behind := by
  induction before with
  | nil => exact h.1 rfl
  | cons c rest ih => exact ih h.2

end

/-- In a derived text at least two characters stand behind a question mark. -/
theorem Derivation.behindMarks {form : Form} (d : Derivation form) :
    BehindMarks (2 ≤ ·.length) d.chars := by
  have hlength (second rest : List Char) (h : 2 ≤ rest.length) : 2 ≤ (rest ++ second).length := by
    rw [List.length_append]
    exact Nat.le_add_right_of_le h
  induction d with
  | single first ih | start first ih => exact ih
  | item inner ih => exact ih
  | bar before last ihb ihl => exact ihb.append (by simp [ihl]) (hlength _)
  | juxtapose before last ihb ihl => exact ihb.append ihl (hlength _)
  | starred before ih => exact ih.append (by simp) (hlength _)
  | group body ih | lookahead body ih | capture body ih =>
      have hbody : BehindMarks (2 ≤ ·.length) (body.chars ++ [')']) :=
        ih.append (by simp) (hlength _)
      simp [chars, hbody]
  | link digit isDigit =>
      have hdigit : digit ≠ '?' := ne_of_isDigit isDigit (by decide)
      simp [chars, hdigit]
  | symbol c isAlphanum =>
      have hc : c ≠ '?' := ne_of_isAlphanum isAlphanum (by decide)
      simp [chars, hc]

/-- The text is not a single digit. -/
def NoDigit (text : List Char) : Prop :=
  ∀ digit : Char, digit.isDigit → text ≠ [digit]

theorem noDigit_append (second : List Char) {first : List Char} (h : 2 ≤ first.length) :
    NoDigit (first ++ second) := by
  intro digit _ heq
  have hlength := congrArg List.length heq
  rw [List.length_append, List.length_singleton] at hlength
  omega

theorem noDigit_cons {c : Char} (hc : ¬ c.isDigit) (rest : List Char) : NoDigit (c :: rest) := by
  rintro digit isDigit heq
  obtain ⟨rfl, -⟩ := List.cons.inj heq
  exact hc isDigit

theorem Bracket.behindMarks (bracket : Bracket) {body : List Char}
    (h : BehindMarks NoDigit body) : BehindMarks NoDigit (bracket.chars ++ body) := by
  cases bracket with
  | group => simp [chars, noDigit_cons, h]
  | lookahead => simp [chars, noDigit_cons, h]
  | capture => simp [chars, h]

/-- Only where the end of a link is missing, a text breaks off behind a question mark and a
    digit. -/
theorem Beginning.behindMarks {form : Form} (b : Beginning form) (h : b.gap ≠ .linkClosing) :
    BehindMarks NoDigit b.chars := by
  induction b with
  | single first ih | start first ih => exact ih h
  | item inner ih => exact ih h
  | bar before last ih =>
      exact before.behindMarks.append (by simpa using ih h) fun _ => noDigit_append _
  | juxtapose before last ih =>
      exact before.behindMarks.append (ih h) fun _ => noDigit_append _
  | nothing => trivial
  | unknown => simp [chars, NoDigit]
  | inside bracket body ih => exact bracket.behindMarks (ih h)
  | unclosed bracket body =>
      have hbody : BehindMarks NoDigit (body.chars ++ []) :=
        body.behindMarks.append behindMarks_nil fun _ => noDigit_append _
      rw [List.append_nil] at hbody
      exact bracket.behindMarks hbody
  | unclosedLink digit isDigit => exact absurd rfl h

end PatternGrammar
