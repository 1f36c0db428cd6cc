import PatternGrammar.Pattern.Text

set_option autoImplicit false

/-! # The notation as a grammar

    alternative   = concatenation ('|' concatenation)*
    concatenation = iteration iteration*
    iteration     = atom '*'*
    atom          = '(?:' alternative ')' | '(?=' alternative ')' | '(?' digit ')'
                  | '(' alternative ')' | letter or digit

A derivation in this grammar is a tree of its own. It has a text (`Derivation.chars`) and it has a
pattern (`Derivation.pattern`), and nothing here reads the one to find the other. The pattern
determines the derivation (`Derivation.pattern_injective`), which is half of the reason why no text
has two derivations; the other half is that reading a text finds the pattern of any of them. -/

namespace PatternGrammar

/-! ## Derivations -/

/-- The four forms of the notation. -/
inductive Form where
  | alternative
  | concatenation
  | iteration
  | atom
  deriving DecidableEq

/-- The derivations of a form. Those of a repetition `x y*` are built from its beginning: either
    the `x` alone, or a shorter repetition and the `y` behind it. -/
inductive Derivation : Form → Type where
  | single (first : Derivation .concatenation) : Derivation .alternative
  | bar (before : Derivation .alternative) (last : Derivation .concatenation) :
      Derivation .alternative
  | start (first : Derivation .iteration) : Derivation .concatenation
  | juxtapose (before : Derivation .concatenation) (last : Derivation .iteration) :
      Derivation .concatenation
  | item (inner : Derivation .atom) : Derivation .iteration
  | starred (before : Derivation .iteration) : Derivation .iteration
  | group (body : Derivation .alternative) : Derivation .atom
  | lookahead (body : Derivation .alternative) : Derivation .atom
  | link (digit : Char) (isDigit : digit.isDigit) : Derivation .atom
  | capture (body : Derivation .alternative) : Derivation .atom
  | symbol (c : Char) (isAlphanum : c.isAlphanum) : Derivation .atom

namespace Derivation

variable {form : Form}

/-- The text that is derived. -/
def chars : {form : Form} → Derivation form → List Char
  | _, single first => first.chars
  | _, bar before last => before.chars ++ '|' :: last.chars
  | _, start first => first.chars
  | _, juxtapose before last => before.chars ++ last.chars
  | _, item inner => inner.chars
  | _, starred before => before.chars ++ ['*']
  | _, group body => '(' :: '?' :: ':' :: (body.chars ++ [')'])
  | _, lookahead body => '(' :: '?' :: '=' :: (body.chars ++ [')'])
  | _, link digit _ => ['(', '?', digit, ')']
  | _, capture body => '(' :: (body.chars ++ [')'])
  | _, symbol c _ => [c]

/-- The number of captures that the text opens. -/
def captures : {form : Form} → Derivation form → Nat
  | _, single first => first.captures
  | _, bar before last => before.captures + last.captures
  | _, start first => first.captures
  | _, juxtapose before last => before.captures + last.captures
  | _, item inner => inner.captures
  | _, starred before => before.captures
  | _, group body => body.captures
  | _, lookahead body => body.captures
  | _, link _ _ => 0
  | _, capture body => body.captures + 1
  | _, symbol _ _ => 0

/-- The pattern of a derivation whose text follows on a text that opens `opened` captures. A
    capture takes the number of those opened before its own. -/
def pattern : {form : Form} → Derivation form → (opened : Nat) → Pattern
  | _, single first, opened => first.pattern opened
  | _, bar before last, opened =>
      .alt (before.pattern opened) (last.pattern (opened + before.captures))
  | _, start first, opened => first.pattern opened
  | _, juxtapose before last, opened =>
      .concat (before.pattern opened) (last.pattern (opened + before.captures))
  | _, item inner, opened => inner.pattern opened
  | _, starred before, opened => .star (before.pattern opened)
  | _, group body, opened => .group (body.pattern opened)
  | _, lookahead body, opened => .lookahead (body.pattern opened)
  | _, link digit _, _ => .link (digit.toNat - '0'.toNat)
  | _, capture body, opened => .capture (body.pattern (opened + 1)) (opened + 1)
  | _, symbol c _, _ => .symbol c

/-! ## Letters, digits and marks -/

theorem ne_of_isAlphanum {c mark : Char} (h : c.isAlphanum) (hmark : ¬ mark.isAlphanum) :
    c ≠ mark := by
  rintro rfl
  exact hmark h

theorem ne_of_isDigit {c mark : Char} (h : c.isDigit) (hmark : ¬ mark.isDigit) : c ≠ mark := by
  rintro rfl
  exact hmark h

end Derivation

/-! ## The pattern determines the derivation -/

/-- The strength that the patterns of a form have at least. -/
def Form.strength : Form → Nat
  | .alternative => 0
  | .concatenation => 1
  | .iteration | .atom => 2

namespace Derivation

variable {form : Form}

theorem strength_le_pattern (d : Derivation form) (opened : Nat) :
    form.strength ≤ (d.pattern opened).strength := by
  induction d generalizing opened with
  | single first ih | start first ih => exact Nat.le_trans (by decide) (ih opened)
  | item inner ih => exact ih opened
  | bar | juxtapose | starred | group | lookahead | link | capture | symbol => exact Nat.le_refl _

theorem pattern_ne_alt (d : Derivation .concatenation) (opened : Nat) (left right : Pattern) :
    d.pattern opened ≠ .alt left right := by
  intro h
  have hle := d.strength_le_pattern opened
  rw [h] at hle
  exact absurd hle (Nat.not_succ_le_self _)

theorem pattern_ne_concat (d : Derivation .iteration) (opened : Nat) (left right : Pattern) :
    d.pattern opened ≠ .concat left right := by
  intro h
  have hle := d.strength_le_pattern opened
  rw [h] at hle
  exact absurd hle (Nat.not_succ_le_self _)

theorem pattern_ne_star (d : Derivation .atom) (opened : Nat) (body : Pattern) :
    d.pattern opened ≠ .star body := by
  cases d <;> simp [pattern]

/-- A digit is determined by its value. -/
theorem eq_of_digit_eq {c c' : Char} (h : c.isDigit) (h' : c'.isDigit)
    (heq : c.toNat - '0'.toNat = c'.toNat - '0'.toNat) : c = c' := by
  have hle := (Char.isDigit_iff_toNat.1 h).1
  have hle' := (Char.isDigit_iff_toNat.1 h').1
  exact Char.toNat_inj.1 (by omega)

/-- No two derivations of a form have the same pattern. -/
theorem pattern_injective (opened : Nat) :
    Function.Injective fun d : Derivation form => d.pattern opened := by
  intro d d' h
  induction d generalizing opened with
  | single first ih =>
      cases d' with
      | single first' => exact congrArg single (ih opened h)
      | bar before last => exact absurd h (first.pattern_ne_alt opened _ _)
  | bar before last ihb ihl =>
      cases d' with
      | single first => exact absurd h.symm (first.pattern_ne_alt opened _ _)
      | bar before' last' =>
          obtain ⟨hbefore, hlast⟩ := Pattern.alt.inj h
          obtain rfl := ihb opened hbefore
          rw [ihl _ hlast]
  | start first ih =>
      cases d' with
      | start first' => exact congrArg start (ih opened h)
      | juxtapose before last => exact absurd h (first.pattern_ne_concat opened _ _)
  | juxtapose before last ihb ihl =>
      cases d' with
      | start first => exact absurd h.symm (first.pattern_ne_concat opened _ _)
      | juxtapose before' last' =>
          obtain ⟨hbefore, hlast⟩ := Pattern.concat.inj h
          obtain rfl := ihb opened hbefore
          rw [ihl _ hlast]
  | item inner ih =>
      cases d' with
      | item inner' => exact congrArg item (ih opened h)
      | starred before => exact absurd h (inner.pattern_ne_star opened _)
  | starred before ih =>
      cases d' with
      | item inner => exact absurd h.symm (inner.pattern_ne_star opened _)
      | starred before' => exact congrArg starred (ih opened (Pattern.star.inj h))
  | group body ih =>
      cases d' with
      | group body' => exact congrArg group (ih opened (Pattern.group.inj h))
      | lookahead | link | capture | symbol => exact Pattern.noConfusion h
  | lookahead body ih =>
      cases d' with
      | lookahead body' => exact congrArg lookahead (ih opened (Pattern.lookahead.inj h))
      | group | link | capture | symbol => exact Pattern.noConfusion h
  | link digit isDigit =>
      cases d' with
      | link digit' isDigit' =>
          obtain rfl := eq_of_digit_eq isDigit isDigit' (Pattern.link.inj h)
          rfl
      | group | lookahead | capture | symbol => exact Pattern.noConfusion h
  | capture body ih =>
      cases d' with
      | capture body' => exact congrArg capture (ih (opened + 1) (Pattern.capture.inj h).1)
      | group | lookahead | link | symbol => exact Pattern.noConfusion h
  | symbol c isAlphanum =>
      cases d' with
      | symbol c' isAlphanum' =>
          obtain rfl := Pattern.symbol.inj h
          rfl
      | group | lookahead | link | capture => exact Pattern.noConfusion h

end Derivation

end PatternGrammar
