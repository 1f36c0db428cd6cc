import PatternGrammar.Proofs.Canonical
import PatternGrammar.Proofs.Parsing

set_option autoImplicit false

/-! # Reading loses nothing

A pattern that was read from a text has this text as its canonical one (`Pattern.text_of_parse`).
The printer puts a group around an operand that binds too loosely for its place, but the notation
has no such operand: what may stand at a place is a form whose patterns bind tightly enough. So the
canonical text of what is derived is the text that it is derived from, form by form. The indices of
the captures are not in this text and need not be, for they only count the captures. -/

namespace PatternGrammar

/-! ## Operands that need no group -/

theorem Pattern.asTerm_eq_self {p : Pattern} (h : 1 ≤ p.strength) : p.asTerm = p := by
  cases p with
  | alt left right => simp [Pattern.strength] at h
  | _ => rfl

theorem Pattern.asItem_eq_self {p : Pattern} (h : 2 ≤ p.strength) : p.asItem = p := by
  cases p with
  | alt left right => simp [Pattern.strength] at h
  | concat left right => simp [Pattern.strength] at h
  | _ => rfl

namespace Derivation

variable {form : Form}

theorem asTerm_pattern (d : Derivation .concatenation) (opened : Nat) :
    (d.pattern opened).asTerm = d.pattern opened :=
  Pattern.asTerm_eq_self (d.strength_le_pattern opened)

theorem asItem_pattern (d : Derivation .iteration) (opened : Nat) :
    (d.pattern opened).asItem = d.pattern opened :=
  Pattern.asItem_eq_self (d.strength_le_pattern opened)

/-! ## The canonical text of what is derived -/

/-- The value of a digit is written as this digit. -/
theorem toDigits_value {c : Char} (h : c.isDigit) :
    Nat.toDigits 10 (c.toNat - '0'.toNat) = [c] := by
  have hle : c.toNat ≤ 57 := (Char.isDigit_iff_toNat.1 h).2
  have hlt : c.toNat - 48 < 10 := by omega
  have hdigit : (c.toNat - 48).digitChar.isDigit := by simp [hlt]
  have hchar : (c.toNat - 48).digitChar = c :=
    eq_of_digit_eq hdigit h (Nat.toNat_digitChar_sub_48_of_lt_ten hlt)
  show Nat.toDigits 10 (c.toNat - 48) = [c]
  rw [Nat.toDigits_of_lt_base hlt, hchar]

theorem chars_pattern (d : Derivation form) (opened : Nat) :
    (d.pattern opened).chars = d.chars := by
  induction d generalizing opened with
  | single first ih | start first ih => exact ih opened
  | item inner ih => exact ih opened
  | bar before last ihb ihl =>
      rw [pattern, Pattern.chars_alt, asTerm_pattern, ihb, ihl, chars]
  | juxtapose before last ihb ihl =>
      -- A bar cannot stand to the left without a group, and no infix form to the right.
      rw [pattern, Pattern.chars_concat, asItem_pattern, asTerm_pattern, ihb, ihl, chars]
  | starred before ih => rw [pattern, Pattern.chars_star, asItem_pattern, ih, chars]
  | group body ih => rw [pattern, Pattern.chars_group, ih, chars]
  | lookahead body ih => rw [pattern, Pattern.chars_lookahead, ih, chars]
  | link digit isDigit => rw [pattern, Pattern.chars_link, toDigits_value isDigit]; rfl
  | capture body ih => rw [pattern, Pattern.chars_capture, ih, chars]
  | symbol c isAlphanum => rw [pattern, Pattern.chars_symbol, chars]

/-! ## The captures of what is derived -/

/-- The captures are numbered from left to right, without gaps. -/
theorem captures_pattern (d : Derivation form) (opened : Nat) :
    (d.pattern opened).captures = List.range' (opened + 1) d.captures := by
  induction d generalizing opened with
  | single first ih | start first ih => exact ih opened
  | item inner ih => exact ih opened
  | starred before ih => exact ih opened
  | group body ih | lookahead body ih => exact ih opened
  | link | symbol => rfl
  | capture body ih => exact congrArg (List.cons (opened + 1)) (ih (opened + 1))
  | bar before last ihb ihl =>
      rw [pattern, Pattern.captures_alt, ihb, ihl, Nat.add_right_comm, List.range'_append_1]
      rfl
  | juxtapose before last ihb ihl =>
      rw [pattern, Pattern.captures_concat, ihb, ihl, Nat.add_right_comm, List.range'_append_1]
      rfl

theorem captureCount_pattern (d : Derivation form) (opened : Nat) :
    (d.pattern opened).captureCount = d.captures := by
  rw [Pattern.captureCount, captures_pattern, List.length_range']

end Derivation

/-! ## Whole texts -/

namespace Pattern

/-- The captures of a pattern that was read have different indices. -/
theorem captures_nodup_of_parse {text : String} {p : Pattern} (h : parse text = .ok p) :
    p.captures.Nodup := by
  obtain ⟨d, -, -, rfl⟩ := exists_of_parse_eq_ok h
  rw [d.captures_pattern]
  exact List.nodup_range'

theorem text_of_parse {text : String} {p : Pattern} (h : parse text = .ok p) : p.text = text := by
  obtain ⟨d, hchars, -, rfl⟩ := exists_of_parse_eq_ok h
  exact String.toList_inj.1 ((d.chars_pattern 0).trans hchars)

/-- The canonical text of a pattern that was read is the text that it was read from. So reading it
    once more yields the same pattern, and no other text yields this pattern. -/
theorem parse_loses_nothing {text : String} {p : Pattern} (h : parse text = .ok p) :
    p.text = text ∧ parse p.text = .ok p ∧ ∀ other, parse other = .ok p → other = text := by
  refine ⟨text_of_parse h, ?_, ?_⟩
  · rw [text_of_parse h]
    exact h
  · intro other hother
    rw [← text_of_parse hother, text_of_parse h]

/-- In `(a|b)*(?1)` the star and the link stand behind groups of the text itself. -/
theorem parse_loses_nothing_groups :
    parse "(a|b)*(?1)" = .ok (concat (star (capture (alt (symbol 'a') (symbol 'b')) 1)) (link 1))
      ∧ (concat (star (capture (alt (symbol 'a') (symbol 'b')) 1)) (link 1)).text = "(a|b)*(?1)"
      ∧ ∀ other, parse other
          = .ok (concat (star (capture (alt (symbol 'a') (symbol 'b')) 1)) (link 1)) →
        other = "(a|b)*(?1)" := by
  have hparse : parse "(a|b)*(?1)"
      = .ok (concat (star (capture (alt (symbol 'a') (symbol 'b')) 1)) (link 1)) :=
    parse_of_derivation (d := .single (.juxtapose
      (.start (.starred (.item (.capture (.bar (.single (.start (.item (.symbol 'a' rfl))))
        (.start (.item (.symbol 'b' rfl)))))))) (.item (.link '1' rfl)))) rfl
  obtain ⟨htext, -, honly⟩ := parse_loses_nothing hparse
  exact ⟨hparse, htext, honly⟩

end Pattern

end PatternGrammar
