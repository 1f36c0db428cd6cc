import PatternGrammar.Grammar.Text
import PatternGrammar.Pattern.Drawing
import PatternGrammar.Proofs.Image
import PatternGrammar.Proofs.Refusals
import PatternGrammar.Proofs.SyntaxErrors

set_option autoImplicit false

/-! # The characters of what is written

Control characters structure an output: they end lines and begin codes. None of them stands in a
wording, in a drawing or in the listing of a grammar, unless it stands in the pattern. -/

namespace PatternGrammar

namespace Text

/-- The character does not occur in the text. -/
def Avoids (x : Char) (text : String) : Prop :=
  x ∉ text.toList

/-- The character is an ASCII control character. -/
def IsControl (x : Char) : Prop :=
  x.toNat < 32

variable {x : Char}

@[simp] theorem avoids_append {first second : String} :
    Avoids x (first ++ second) ↔ Avoids x first ∧ Avoids x second := by
  simp [Avoids]

@[simp] theorem avoids_singleton {c : Char} : Avoids x (String.singleton c) ↔ x ≠ c := by
  simp [Avoids]

theorem Avoids.append {first second : String} (hfirst : Avoids x first)
    (hsecond : Avoids x second) : Avoids x (first ++ second) :=
  avoids_append.2 ⟨hfirst, hsecond⟩

theorem avoids_intercalate {sep : String} (hsep : Avoids x sep) {parts : List String}
    (hparts : ∀ part ∈ parts, Avoids x part) : Avoids x (sep.intercalate parts) := by
  induction parts with
  | nil => exact List.not_mem_nil
  | cons part rest ih =>
      rw [List.forall_mem_cons] at hparts
      by_cases hrest : rest = []
      · subst hrest
        rw [String.intercalate_singleton]
        exact hparts.1
      · rw [String.intercalate_cons_of_ne_nil hrest, avoids_append, avoids_append]
        exact ⟨⟨hparts.1, hsep⟩, ih hparts.2⟩

namespace IsControl

/-- A printable wording avoids all control characters. -/
theorem avoids (hx : IsControl x) {text : String} (h : text.toList.all (32 ≤ ·.toNat)) :
    Avoids x text := by
  intro hmem
  have hle := of_decide_eq_true (List.all_eq_true.1 h x hmem)
  exact Nat.not_lt.2 hle hx

theorem not_isAlphanum (hx : IsControl x) : ¬ x.isAlphanum := by
  have hlt : x.val.toNat < 32 := hx
  have hA : 'A'.val.toNat = 65 := rfl
  have ha : 'a'.val.toNat = 97 := rfl
  have h0 : '0'.val.toNat = 48 := rfl
  simp only [Char.isAlphanum, Char.isAlpha, Char.isUpper, Char.isLower, Char.isDigit,
    Bool.or_eq_true, Bool.and_eq_true, decide_eq_true_eq, ge_iff_le, UInt32.le_iff_toNat_le]
  omega

theorem avoids_toString (hx : IsControl x) (n : Nat) : Avoids x (toString n) := by
  intro hmem
  rw [Nat.toString_eq_repr, Nat.toList_repr] at hmem
  have hdigit := Nat.isDigit_of_mem_toDigits (by decide) (by decide) hmem
  exact hx.not_isAlphanum (by simp [Char.isAlphanum, hdigit])

end IsControl

theorem lineFeed_isControl : IsControl '\n' := by
  unfold IsControl
  decide

end Text

open Text

variable {x : Char}

/-! ## Wordings -/

theorem Violation.avoids_message (hx : IsControl x) (v : Violation) : Avoids x v.message := by
  cases v with
  | captureInLookahead index =>
      exact ((hx.avoids rfl).append (hx.avoids_toString index)).append (hx.avoids rfl)
  | nestedLookahead => exact hx.avoids rfl
  | undeclaredGroup index => exact (hx.avoids rfl).append (hx.avoids_toString index)

theorem BuildError.avoids_message (hx : IsControl x) (e : BuildError) : Avoids x e.message := by
  cases e with
  | duplicateCapture index | unresolvedLink index =>
      exact (hx.avoids rfl).append (hx.avoids_toString index)

theorem Token.avoids_name (hx : IsControl x) {token : Token} (h : x ∉ token.char?) :
    Avoids x token.name := by
  cases token with
  | symbol c =>
      have hc : x ≠ c := fun heq => h (congrArg some heq.symm)
      exact ((hx.avoids rfl).append (avoids_singleton.2 hc)).append (hx.avoids rfl)
  | _ => exact hx.avoids rfl

/-- The characters that the wording of an error quotes. -/
def SyntaxError.quoted : SyntaxError → List Char
  | invalidCharacter c _ => [c]
  | unexpectedToken found _ | expectedEnd found _ => found.char?.toList
  | expectedToken expected found _ => expected :: found.char?.toList
  | tooManyCaptures _ => []

theorem SyntaxError.avoids_message (hx : IsControl x) {e : SyntaxError} (h : x ∉ e.quoted) :
    Avoids x e.message := by
  cases e with
  | invalidCharacter c position =>
      have hc : Avoids x (toString c) := avoids_singleton.2 (List.ne_of_not_mem_cons h)
      exact (((hx.avoids rfl).append hc).append (hx.avoids rfl)).append
        (hx.avoids_toString position)
  | unexpectedToken found position =>
      have hfound := found.avoids_name hx (mt Option.mem_toList.2 h)
      exact (((hx.avoids rfl).append hfound).append (hx.avoids rfl)).append
        (hx.avoids_toString position)
  | expectedToken expected found position =>
      have hexpected : Avoids x (toString expected) :=
        avoids_singleton.2 (List.ne_of_not_mem_cons h)
      have hfound := found.avoids_name hx (mt Option.mem_toList.2 (List.not_mem_of_not_mem_cons h))
      exact (((((hx.avoids rfl).append hexpected).append (hx.avoids rfl)).append hfound).append
        (hx.avoids rfl)).append (hx.avoids_toString position)
  | expectedEnd found position =>
      have hfound := found.avoids_name hx (mt Option.mem_toList.2 h)
      exact (((hx.avoids rfl).append hfound).append (hx.avoids rfl)).append
        (hx.avoids_toString position)
  | tooManyCaptures count =>
      exact ((((hx.avoids rfl).append (hx.avoids_toString count)).append (hx.avoids rfl)).append
        (hx.avoids_toString maxCaptures)).append (hx.avoids rfl)

theorem Gap.mem_of_quoted_refusal (gap : Gap) {found : Token} {position : Nat} {c : Char}
    (h : c ∈ (gap.refusal found position).quoted) : c ∈ found.char? ∨ c = ')' := by
  cases gap with
  | item | kind => exact .inl (Option.mem_toList.1 h)
  | closing | linkClosing =>
      rcases List.mem_cons.1 h with hparen | hfound
      · exact .inr hparen
      · exact .inl (Option.mem_toList.1 hfound)

/-- An error in a text quotes characters of the text, and the parenthesis that may be missing. -/
theorem Unreadable.mem_of_quoted {chars : List Char} {e : SyntaxError} (h : Unreadable chars e)
    {c : Char} (hc : c ∈ e.quoted) : c ∈ chars ∨ c = ')' := by
  cases h with
  | foreign htext hbefore hforeign =>
      obtain rfl := List.mem_singleton.1 hc
      exact .inl (by simp [htext])
  | broken b htext hbehind hrefuses =>
      rcases b.gap.mem_of_quoted_refusal hc with hfirst | hparen
      · obtain ⟨rest, rfl⟩ := Token.exists_cons_of_first hbehind hfirst
        exact .inl (by simp [htext])
      · exact .inr hparen
  | excess d htext hbehind => exact .inr (List.mem_singleton.1 hc)
  | captures d htext hmany => exact nomatch hc

/-! ## Drawings -/

namespace Pattern

theorem avoids_label (hx : IsControl x) {p : Pattern} (h : p ≠ symbol x) : Avoids x p.label := by
  cases p with
  | symbol c =>
      have hc : x ≠ c := fun heq => h (congrArg symbol heq.symm)
      exact (hx.avoids rfl).append (avoids_singleton.2 hc)
  | capture body index =>
      exact ((hx.avoids rfl).append (hx.avoids_toString index)).append (hx.avoids rfl)
  | link index =>
      exact ((hx.avoids rfl).append (hx.avoids_toString index)).append (hx.avoids rfl)
  | star body => exact (hx.avoids rfl : Avoids x "Iterat:")
  | group body => exact (hx.avoids rfl : Avoids x "NoCapture:")
  | concat left right => exact (hx.avoids rfl : Avoids x "Concat:")
  | alt left right => exact (hx.avoids rfl : Avoids x "Alternat:")
  | lookahead body => exact (hx.avoids rfl : Avoids x "LookAhead:")

/-- The rows of a pattern quote nothing but its symbols. -/
theorem avoids_rowsAt (hx : IsControl x) {p : Pattern} (h : symbol x ∉ p.nodes)
    {margin indent : String} (hmargin : Avoids x margin) (hindent : Avoids x indent) :
    ∀ row ∈ p.rowsAt margin indent, Avoids x row := by
  have hlast : Avoids x (indent ++ "└── ") := hindent.append (hx.avoids rfl)
  have hother : Avoids x (indent ++ "├── ") := hindent.append (hx.avoids rfl)
  have hblank : Avoids x (indent ++ "    ") := hindent.append (hx.avoids rfl)
  have hline : Avoids x (indent ++ "│   ") := hindent.append (hx.avoids rfl)
  have hroot : Avoids x (margin ++ p.label) :=
    hmargin.append (p.avoids_label hx fun heq => h (heq ▸ p.mem_nodes_self))
  cases p with
  | symbol c | link index => exact List.forall_mem_singleton.2 hroot
  | star body | capture body index | group body | lookahead body =>
      have hbody := List.not_mem_of_not_mem_cons h
      exact List.forall_mem_cons.2 ⟨hroot, body.avoids_rowsAt hx hbody hlast hblank⟩
  | concat left right | alt left right =>
      rw [nodes, List.mem_cons, List.mem_append, not_or, not_or] at h
      refine List.forall_mem_cons.2 ⟨hroot, List.forall_mem_append.2 ⟨?_, ?_⟩⟩
      · exact left.avoids_rowsAt hx h.2.1 hother hline
      · exact right.avoids_rowsAt hx h.2.2 hlast hblank

theorem avoids_rows (hx : IsControl x) {p : Pattern} (h : symbol x ∉ p.nodes) :
    ∀ row ∈ p.rows, Avoids x row :=
  p.avoids_rowsAt hx h (hx.avoids rfl) (hx.avoids rfl)

end Pattern

/-! ## Listings of grammars -/

theorem NonTerminal.avoids_text (hx : IsControl x) (name : NonTerminal) : Avoids x name.text :=
  (hx.avoids rfl).append (hx.avoids_toString name.number)

namespace Grammar

theorem mem_rules_of_mem_entries {g : Grammar} {name : NonTerminal}
    {alternatives : List Alternative} (h : (name, alternatives) ∈ g.entries) :
    alternatives ∈ g.rules := by
  obtain ⟨⟨rule, k⟩, hmem, heq⟩ := List.mem_map.1 h
  obtain ⟨-, rfl⟩ := Prod.mk.inj heq
  exact Array.mem_toList_iff.1 (List.fst_mem_of_mem_zipIdx hmem)

theorem Symbol.avoids_text (hx : IsControl x) {symbol : Symbol} (h : symbol ≠ .terminal x) :
    Avoids x symbol.text := by
  cases symbol with
  | terminal c => exact avoids_singleton.2 fun heq => h (congrArg Symbol.terminal heq.symm)
  | nonTerminal name => exact name.avoids_text hx
  | epsilon => exact hx.avoids rfl

/-- Alternatives without the terminal `x` are written without it. -/
theorem avoids_alternativesText (hx : IsControl x) {alternatives : List Alternative}
    (h : ∀ alternative ∈ alternatives, .terminal x ∉ alternative) :
    Avoids x (alternativesText alternatives) := by
  refine avoids_intercalate (hx.avoids rfl) ?_
  rw [List.forall_mem_map]
  intro alternative halternative
  refine avoids_intercalate (hx.avoids rfl) ?_
  rw [List.forall_mem_map]
  intro symbol hsymbol
  exact symbol.avoids_text hx fun heq => h alternative halternative (heq ▸ hsymbol)

/-- A listing has a character `x` only in its heads and terminals. -/
theorem avoids_rows (hx : IsControl x) {g : Grammar} {head : NonTerminal → String}
    (hhead : ∀ name, Avoids x (head name))
    (h : ∀ alternatives ∈ g.rules, ∀ alternative ∈ alternatives, .terminal x ∉ alternative) :
    ∀ row ∈ g.rows head, Avoids x row := by
  rw [rows, List.forall_mem_map]
  rintro ⟨name, alternatives⟩ hentry
  have harrow : Avoids x " → " := hx.avoids rfl
  have htext := avoids_alternativesText hx (h _ (mem_rules_of_mem_entries hentry))
  exact ((hhead name).append harrow).append htext

end Grammar

namespace Pattern

/-- Only the rule of a symbol has a terminal. -/
theorem eq_symbol_of_mem_rule {groups : List (Nat × NonTerminal)} {number : Nat} {node : Pattern}
    {alternative : Grammar.Alternative} (h : alternative ∈ node.rule groups number) {c : Char}
    (hc : .terminal c ∈ alternative) : node = symbol c := by
  cases node with
  | symbol c' =>
      obtain rfl := List.mem_singleton.1 h
      simpa [eq_comm] using hc
  | link index =>
      rw [rule] at h
      split at h
      · obtain rfl := List.mem_singleton.1 h
        simp at hc
      · exact absurd h List.not_mem_nil
  | star body | alt left right =>
      rw [rule, List.mem_cons, List.mem_singleton] at h
      rcases h with rfl | rfl <;> simp at hc
  | capture body index | group body | lookahead body | concat left right =>
      obtain rfl := List.mem_singleton.1 h
      simp at hc

/-- The terminals of a grammar are symbols of its pattern. -/
theorem symbol_mem_of_terminal {p : Pattern} {g : Grammar} (h : p.grammar = .ok g)
    {alternatives : List Grammar.Alternative} (halternatives : alternatives ∈ g.rules)
    {alternative : Grammar.Alternative} (halternative : alternative ∈ alternatives) {c : Char}
    (hc : .terminal c ∈ alternative) : symbol c ∈ p.nodes := by
  obtain ⟨-, -, rfl⟩ := grammar_eq_ok_iff.1 h
  obtain ⟨k, hk⟩ := List.mem_iff_getElem?.1 (List.mem_toArray.1 halternatives)
  rw [getElem?_placement, Option.map_eq_some_iff] at hk
  obtain ⟨node, hnode, rfl⟩ := hk
  exact eq_symbol_of_mem_rule halternative hc ▸ List.mem_of_getElem? hnode

/-- A pattern that was read has letters and digits for symbols. -/
theorem symbol_not_mem_of_parse (hx : IsControl x) {p : Pattern} {text : String}
    (h : parse text = .ok p) : symbol x ∉ p.nodes :=
  fun hmem => hx.not_isAlphanum ((canonical_of_parse h).fits _ hmem)

end Pattern

end PatternGrammar
