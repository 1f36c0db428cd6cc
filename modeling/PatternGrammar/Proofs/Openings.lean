import PatternGrammar.Proofs.Reading

set_option autoImplicit false

/-! # Parentheses that open captures

In a text of the notation a parenthesis opens a capture if and only if no question mark stands
behind it. So the captures of a derivation can be counted in its text. -/

namespace PatternGrammar

/-- The places of the left parentheses that have no question mark right behind them. -/
def captureOpenings (chars : List Char) : List Nat :=
  (List.range chars.length).filter fun place =>
    chars[place]? = some '(' ∧ chars[place + 1]? ≠ some '?'

@[simp] theorem captureOpenings_nil : captureOpenings [] = [] := rfl

theorem captureOpenings_cons (c : Char) (rest : List Char) :
    captureOpenings (c :: rest)
      = (if c = '(' ∧ rest.head? ≠ some '?' then [0] else [])
        ++ (captureOpenings rest).map (· + 1) := by
  have hhead : rest[0]? = rest.head? := (List.head?_eq_getElem? ..).symm
  rw [captureOpenings, List.length_cons, List.range_succ_eq_map, List.filter_cons, List.filter_map]
  by_cases h : c = '(' ∧ rest.head? ≠ some '?'
  · simp [captureOpenings, hhead, h, Function.comp_def]
  · simp [captureOpenings, hhead, h, Function.comp_def]

/-- The openings of two parts of a text are independent if no question mark stands at their
    border. -/
theorem captureOpenings_append {second : List Char} (h : second.head? ≠ some '?')
    (first : List Char) :
    captureOpenings (first ++ second)
      = captureOpenings first ++ (captureOpenings second).map (first.length + ·) := by
  induction first with
  | nil => simp
  | cons c rest ih =>
      have hhead : (rest ++ second).head? ≠ some '?' ↔ rest.head? ≠ some '?' := by
        cases rest with
        | nil => simp [h]
        | cons => rfl
      rw [List.cons_append, captureOpenings_cons, captureOpenings_cons, ih, List.map_append,
        List.append_assoc, List.map_map]
      simp only [hhead, List.length_cons, Function.comp_def, Nat.add_right_comm]

theorem captureOpenings_concat {c : Char} (hleft : c ≠ '(') (hquestion : c ≠ '?')
    (first : List Char) : captureOpenings (first ++ [c]) = captureOpenings first := by
  rw [captureOpenings_append (by simp [hquestion]), captureOpenings_cons]
  simp [hleft]

namespace Derivation

variable {form : Form}

theorem head?_chars_ne_question (d : Derivation form) : d.chars.head? ≠ some '?' := by
  obtain ⟨first, rest, htokens, hfirst⟩ := d.tokens_eq_cons
  cases hchars : d.chars with
  | nil => simp
  | cons c more =>
      rintro h
      obtain rfl := Option.some.inj h
      rw [tokens, hchars, Token.ofChars_cons rfl] at htokens
      exact hfirst.ne_question (List.cons.inj htokens).1.symm

/-! ## The openings of each form -/

theorem captureOpenings_bar (before : Derivation .alternative) (last : Derivation .concatenation) :
    captureOpenings (bar before last).chars = captureOpenings before.chars
      ++ (captureOpenings last.chars).map ((before.chars ++ ['|']).length + ·) := by
  have hchars : (bar before last).chars = (before.chars ++ ['|']) ++ last.chars :=
    (List.append_assoc before.chars ['|'] last.chars).symm
  rw [hchars, captureOpenings_append last.head?_chars_ne_question,
    captureOpenings_concat (by decide) (by decide)]

theorem captureOpenings_juxtapose (before : Derivation .concatenation)
    (last : Derivation .iteration) :
    captureOpenings (juxtapose before last).chars = captureOpenings before.chars
      ++ (captureOpenings last.chars).map (before.chars.length + ·) :=
  captureOpenings_append last.head?_chars_ne_question before.chars

theorem captureOpenings_starred (before : Derivation .iteration) :
    captureOpenings (starred before).chars = captureOpenings before.chars :=
  captureOpenings_concat (by decide) (by decide) before.chars

/-- The openings of what is put in parentheses are those before it and its own. -/
theorem captureOpenings_enclosed (d : Derivation form) (front : List Char) :
    captureOpenings (front ++ (d.chars ++ [')']))
      = captureOpenings front ++ (captureOpenings d.chars).map (front.length + ·) := by
  have hhead : (d.chars ++ [')']).head? ≠ some '?' := by
    have h := d.head?_chars_ne_question
    cases hchars : d.chars with
    | nil => simp
    | cons c rest => simpa [hchars] using h
  rw [captureOpenings_append hhead, captureOpenings_concat (by decide) (by decide)]

theorem captureOpenings_group (body : Derivation .alternative) :
    captureOpenings (group body).chars = (captureOpenings body.chars).map (3 + ·) :=
  body.captureOpenings_enclosed ['(', '?', ':']

theorem captureOpenings_lookahead (body : Derivation .alternative) :
    captureOpenings (lookahead body).chars = (captureOpenings body.chars).map (3 + ·) :=
  body.captureOpenings_enclosed ['(', '?', '=']

theorem captureOpenings_capture (body : Derivation .alternative) :
    captureOpenings (capture body).chars = 0 :: (captureOpenings body.chars).map (1 + ·) :=
  body.captureOpenings_enclosed ['(']

theorem captureOpenings_link (digit : Char) (isDigit : digit.isDigit) :
    captureOpenings (link digit isDigit).chars = [] := by
  have hdigit : digit ≠ '(' := ne_of_isDigit isDigit (by decide)
  simp [chars, captureOpenings_cons, hdigit]

theorem captureOpenings_symbol (c : Char) (isAlphanum : c.isAlphanum) :
    captureOpenings (symbol c isAlphanum).chars = [] := by
  have hc : c ≠ '(' := ne_of_isAlphanum isAlphanum (by decide)
  simp [chars, captureOpenings_cons, hc]

/-- A derivation has as many captures as its text has parentheses that open one. -/
theorem length_captureOpenings (d : Derivation form) :
    (captureOpenings d.chars).length = d.captures := by
  induction d with
  | single first ih | start first ih => exact ih
  | item inner ih => exact ih
  | bar before last ihb ihl =>
      rw [captureOpenings_bar, List.length_append, List.length_map, ihb, ihl, captures]
  | juxtapose before last ihb ihl =>
      rw [captureOpenings_juxtapose, List.length_append, List.length_map, ihb, ihl, captures]
  | starred before ih => rw [captureOpenings_starred, ih, captures]
  | group body ih => rw [captureOpenings_group, List.length_map, ih, captures]
  | lookahead body ih => rw [captureOpenings_lookahead, List.length_map, ih, captures]
  | capture body ih => rw [captureOpenings_capture, List.length_cons, List.length_map, ih, captures]
  | link digit isDigit => rw [captureOpenings_link, List.length_nil, captures]
  | symbol c isAlphanum => rw [captureOpenings_symbol, List.length_nil, captures]

end Derivation

end PatternGrammar
