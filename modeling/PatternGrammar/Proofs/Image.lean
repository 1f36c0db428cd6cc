import PatternGrammar.Proofs.Lossless
import PatternGrammar.Proofs.Rereading

set_option autoImplicit false

/-! # The trees that can be read

Reading does not yield every tree. The notation has no characters for some of them, it groups
operands in its own way, and it numbers the captures itself. These are the only reasons
(`Pattern.parse_image`): a tree that is its own normal form is read from its canonical text. -/

namespace PatternGrammar

namespace Pattern

/-! ## Canonical trees -/

/-- Whether a node is an alternation. -/
def isAlt : Pattern → Bool
  | alt _ _ => true
  | _ => false

/-- Whether a node is an alternation or a juxtaposition. -/
def isInfix : Pattern → Bool
  | alt _ _ | concat _ _ => true
  | _ => false

/-- A single node as the notation has it: what it is made of can be written, and its operands need
    no group. -/
def Fits : Pattern → Prop
  | symbol c => c.isAlphanum
  | link index => index ≤ 9
  | star body => ¬ body.isInfix
  | concat left right => ¬ left.isAlt ∧ ¬ right.isInfix
  | alt _ right => ¬ right.isAlt
  | capture _ _ | group _ | lookahead _ => True

/-- A tree of the notation, with its captures numbered as they are opened. -/
structure Canonical (p : Pattern) : Prop where
  fits : ∀ node ∈ p.nodes, node.Fits
  numbered : p.captures = List.range' 1 p.captureCount
  few : p.captureCount ≤ 9

theorem not_isAlt_iff {p : Pattern} : ¬ p.isAlt ↔ 1 ≤ p.strength := by
  cases p <;> simp [isAlt, strength]

theorem not_isInfix_iff {p : Pattern} : ¬ p.isInfix ↔ 2 ≤ p.strength := by
  cases p <;> simp [isInfix, strength]

theorem asTerm_of_not_isAlt {p : Pattern} (h : ¬ p.isAlt) : p.asTerm = p :=
  asTerm_eq_self (not_isAlt_iff.1 h)

theorem asItem_of_not_isInfix {p : Pattern} (h : ¬ p.isInfix) : p.asItem = p :=
  asItem_eq_self (not_isInfix_iff.1 h)

/-! ## Trees that are their own normal form -/

/-- The printer adds no group to a tree whose operands need none. -/
theorem grouped_eq_self {p : Pattern} (h : ∀ node ∈ p.nodes, node.Fits) : p.grouped = p := by
  induction p with
  | symbol c | link index => rfl
  | capture body index ih | group body ih | lookahead body ih =>
      rw [nodes, List.forall_mem_cons] at h
      rw [grouped, ih h.2]
  | star body ih =>
      rw [nodes, List.forall_mem_cons] at h
      rw [grouped, ih h.2, asItem_of_not_isInfix h.1]
  | concat left right ihl ihr =>
      rw [nodes, List.forall_mem_cons, List.forall_mem_append] at h
      rw [grouped, ihl h.2.1, ihr h.2.2, asTerm_of_not_isAlt h.1.1, asItem_of_not_isInfix h.1.2]
  | alt left right ihl ihr =>
      rw [nodes, List.forall_mem_cons, List.forall_mem_append] at h
      rw [grouped, ihl h.2.1, ihr h.2.2, asTerm_of_not_isAlt h.1]

/-- Consecutive numbers in two parts of a tree are consecutive numbers in each of them. -/
theorem range'_of_append {left right : Pattern} {opened : Nat}
    (h : left.captures ++ right.captures
      = List.range' (opened + 1) (left.captureCount + right.captureCount)) :
    left.captures = List.range' (opened + 1) left.captureCount
      ∧ right.captures = List.range' (opened + left.captureCount + 1) right.captureCount := by
  rw [← List.range'_append_1, Nat.add_right_comm] at h
  exact List.append_inj h List.length_range'.symm

/-- Captures that are numbered already keep their indices. -/
theorem renumber_eq_self {p : Pattern} {opened : Nat}
    (h : p.captures = List.range' (opened + 1) p.captureCount) : p.renumber opened = p := by
  induction p generalizing opened with
  | symbol c | link index => rfl
  | star body ih | group body ih | lookahead body ih => rw [renumber, ih h]
  | capture body index ih =>
      obtain ⟨rfl, hbody⟩ := List.cons.inj h
      rw [renumber, ih hbody]
  | concat left right ihl ihr =>
      rw [captures_concat, captureCount_concat] at h
      obtain ⟨hleft, hright⟩ := range'_of_append h
      rw [renumber, ihl hleft, ihr hright]
  | alt left right ihl ihr =>
      rw [captures_alt, captureCount_alt] at h
      obtain ⟨hleft, hright⟩ := range'_of_append h
      rw [renumber, ihl hleft, ihr hright]

theorem Canonical.normal_eq_self {p : Pattern} (h : p.Canonical) : p.normal = p := by
  rw [normal, grouped_eq_self h.fits, renumber_eq_self h.numbered]

end Pattern

/-! ## Trees that were read -/

/-- Every node of what is derived is one of the notation. -/
theorem Derivation.fits_pattern {form : Form} (d : Derivation form) (opened : Nat) :
    ∀ node ∈ (d.pattern opened).nodes, node.Fits := by
  induction d generalizing opened with
  | single first ih | start first ih => exact ih opened
  | item inner ih => exact ih opened
  | bar before last ihb ihl =>
      rw [pattern, Pattern.nodes, List.forall_mem_cons, List.forall_mem_append]
      exact ⟨Pattern.not_isAlt_iff.2 (last.strength_le_pattern _), ihb _, ihl _⟩
  | juxtapose before last ihb ihl =>
      rw [pattern, Pattern.nodes, List.forall_mem_cons, List.forall_mem_append]
      exact ⟨⟨Pattern.not_isAlt_iff.2 (before.strength_le_pattern _),
        Pattern.not_isInfix_iff.2 (last.strength_le_pattern _)⟩, ihb _, ihl _⟩
  | starred before ih =>
      rw [pattern, Pattern.nodes, List.forall_mem_cons]
      exact ⟨Pattern.not_isInfix_iff.2 (before.strength_le_pattern _), ih _⟩
  | group body ih | lookahead body ih | capture body ih =>
      rw [pattern, Pattern.nodes, List.forall_mem_cons]
      exact ⟨trivial, ih _⟩
  | link digit isDigit =>
      have hle : digit.toNat ≤ 57 := (Char.isDigit_iff_toNat.1 isDigit).2
      rw [pattern, Pattern.nodes, List.forall_mem_singleton]
      show digit.toNat - 48 ≤ 9
      omega
  | symbol c isAlphanum =>
      rw [pattern, Pattern.nodes, List.forall_mem_singleton]
      exact isAlphanum

namespace Pattern

theorem canonical_of_parse {p : Pattern} {text : String} (h : parse text = .ok p) :
    p.Canonical := by
  obtain ⟨d, -, hfew, rfl⟩ := exists_of_parse_eq_ok h
  have hcaptures := d.captures_pattern 0
  have hcount := d.captureCount_pattern 0
  refine ⟨d.fits_pattern 0, ?_, hcount ▸ hfew⟩
  rw [hcount]
  exact hcaptures

theorem Canonical.parse_text_eq {p : Pattern} (h : p.Canonical) : parse p.text = .ok p := by
  have hwritten := isWritten (fun c => h.fits (symbol c)) (fun index => h.fits (link index))
  rw [parse_of_isWritten hwritten.alternative, if_neg (Nat.not_lt.2 h.few), h.normal_eq_self]

/-- The trees that can be read are the canonical ones, each from its canonical text and from no
    other. -/
theorem parse_image (p : Pattern) :
    ((∃ text, parse text = .ok p) ↔ p.Canonical)
      ∧ ∀ text, parse text = .ok p ↔ p.Canonical ∧ text = p.text := by
  constructor
  · constructor
    · rintro ⟨text, h⟩
      exact canonical_of_parse h
    · intro h
      exact ⟨p.text, h.parse_text_eq⟩
  · intro text
    constructor
    · intro h
      exact ⟨canonical_of_parse h, (text_of_parse h).symm⟩
    · rintro ⟨h, rfl⟩
      exact h.parse_text_eq

end Pattern

end PatternGrammar
