import Mathlib.Data.List.Forall2
import PatternGrammar.Proofs.Lossless
import PatternGrammar.Proofs.Openings

set_option autoImplicit false

/-! # Captures and their parentheses

The captures of a pattern that was read are the parentheses of its text that have no question mark
behind them, in the same order: the indices count these parentheses, and the canonical text of a
capture is what stands between such a parenthesis and the one that closes it, both included
(`Pattern.captures_are_parentheses`). -/

namespace PatternGrammar

/-! ## Matching parentheses -/

/-- In these characters every left parenthesis is closed by one behind it, and every right
    parenthesis closes one before it. -/
inductive Balanced : List Char → Prop
  | nil : Balanced []
  | other {c : Char} {rest : List Char} (hleft : c ≠ '(') (hright : c ≠ ')')
      (h : Balanced rest) : Balanced (c :: rest)
  | nest {inner rest : List Char} (hinner : Balanced inner) (hrest : Balanced rest) :
      Balanced ('(' :: (inner ++ ')' :: rest))

/-- The parenthesis at `opening` is closed by the one at `closing`. -/
def IsPair (chars : List Char) (opening closing : Nat) : Prop :=
  ∃ before inner behind, chars = before ++ '(' :: (inner ++ ')' :: behind) ∧ Balanced inner
    ∧ opening = before.length ∧ closing = before.length + 1 + inner.length

namespace Balanced

variable {first second inner inner' rest rest' : List Char}

theorem append (hfirst : Balanced first) (hsecond : Balanced second) :
    Balanced (first ++ second) := by
  induction hfirst with
  | nil => exact hsecond
  | other hleft hright h ih => exact .other hleft hright ih
  | nest hinner hrest _ ih =>
      rw [List.cons_append, List.append_assoc, List.cons_append]
      exact .nest hinner ih

theorem singleton {c : Char} (hleft : c ≠ '(') (hright : c ≠ ')') : Balanced [c] :=
  .other hleft hright .nil

theorem enclosed (h : Balanced inner) : Balanced ('(' :: (inner ++ [')'])) :=
  .nest h .nil

/-- No other balanced part can be followed by a closing parenthesis at the same place. -/
theorem eq_of_append_eq (h : Balanced inner) (h' : Balanced inner')
    (heq : inner ++ ')' :: rest = inner' ++ ')' :: rest') : inner = inner' ∧ rest = rest' := by
  induction h generalizing inner' rest rest' with
  | nil =>
      cases h' with
      | nil => exact ⟨rfl, (List.cons.inj heq).2⟩
      | other _ hright _ => exact absurd (List.cons.inj heq).1.symm hright
      | nest _ _ => exact absurd (List.cons.inj heq).1 (by decide)
  | other hleft hright _ ih =>
      cases h' with
      | nil => exact absurd (List.cons.inj heq).1 hright
      | other _ _ h' =>
          obtain ⟨rfl, htail⟩ := List.cons.inj heq
          obtain ⟨rfl, rfl⟩ := ih h' htail
          exact ⟨rfl, rfl⟩
      | nest _ _ => exact absurd (List.cons.inj heq).1 hleft
  | nest _ _ ihinner ihrest =>
      cases h' with
      | nil => exact absurd (List.cons.inj heq).1 (by decide)
      | other hleft _ _ => exact absurd (List.cons.inj heq).1.symm hleft
      | nest hinner' hrest' =>
          -- The first parenthesis is closed at the same place, and so are all behind it.
          simp only [List.cons_append, List.append_assoc, List.cons.injEq, true_and] at heq
          obtain ⟨rfl, hbehind⟩ := ihinner hinner' heq
          obtain ⟨rfl, rfl⟩ := ihrest hrest' hbehind
          exact ⟨rfl, rfl⟩

end Balanced

theorem IsPair.unique {chars : List Char} {opening closing closing' : Nat}
    (h : IsPair chars opening closing) (h' : IsPair chars opening closing') :
    closing = closing' := by
  obtain ⟨before, inner, behind, rfl, hinner, rfl, rfl⟩ := h
  obtain ⟨before', inner', behind', heq, hinner', hlength, rfl⟩ := h'
  obtain ⟨rfl, htail⟩ := List.append_inj heq hlength
  obtain ⟨rfl, -⟩ := hinner.eq_of_append_eq hinner' (List.cons.inj htail).2
  rfl

/-! ## Captures in a derivation -/

namespace Pattern

/-- The captures of a pattern, in pre-order. -/
def captureNodes (p : Pattern) : List Pattern :=
  p.nodes.filter fun node => node.captureIndex?.isSome

theorem map_captureIndex?_captureNodes (p : Pattern) :
    p.captureNodes.map captureIndex? = p.captures.map some := by
  unfold captureNodes captures
  induction p.nodes with
  | nil => rfl
  | cons node rest ih => cases h : node.captureIndex? <;> simp [h, ih]

theorem captureNodes_alt (left right : Pattern) :
    (alt left right).captureNodes = left.captureNodes ++ right.captureNodes :=
  List.filter_append ..

theorem captureNodes_concat (left right : Pattern) :
    (concat left right).captureNodes = left.captureNodes ++ right.captureNodes :=
  List.filter_append ..

/-- The text of a node is what stands in `chars` between the parenthesis at `place` and the one
    that closes it, both included. -/
def Spans (chars : List Char) (place : Nat) (node : Pattern) : Prop :=
  ∃ before inner behind, chars = before ++ (node.chars ++ behind) ∧ place = before.length
    ∧ node.chars = '(' :: (inner ++ [')']) ∧ Balanced inner

variable {chars : List Char} {place : Nat} {node : Pattern}

theorem Spans.append (h : Spans chars place node) (back : List Char) :
    Spans (chars ++ back) place node := by
  obtain ⟨before, inner, behind, rfl, rfl, hnode, hinner⟩ := h
  exact ⟨before, inner, behind ++ back, by simp, rfl, hnode, hinner⟩

theorem Spans.prepend (h : Spans chars place node) (front : List Char) :
    Spans (front ++ chars) (front.length + place) node := by
  obtain ⟨before, inner, behind, rfl, rfl, hnode, hinner⟩ := h
  exact ⟨front ++ before, inner, behind, by simp, by simp, hnode, hinner⟩

/-- What follows on a text leaves all places as they are. -/
theorem forall₂_spans_append {places : List Nat} {nodes : List Pattern}
    (h : List.Forall₂ (Spans chars) places nodes) (back : List Char) :
    List.Forall₂ (Spans (chars ++ back)) places nodes :=
  h.imp fun _ _ hspans => hspans.append back

/-- What stands before a text moves all places in it. -/
theorem forall₂_spans_prepend {places : List Nat} {nodes : List Pattern}
    (h : List.Forall₂ (Spans chars) places nodes) (front : List Char) :
    List.Forall₂ (Spans (front ++ chars)) (places.map (front.length + ·)) nodes :=
  List.forall₂_map_left_iff.2 (h.imp fun _ _ hspans => hspans.prepend front)

/-- The text of the node can be cut out of the characters around it. -/
theorem Spans.exists_isPair (h : Spans chars place node) : ∃ closing,
    (∀ other, IsPair chars place other ↔ other = closing)
      ∧ node.text = String.ofList (chars.extract place (closing + 1)) := by
  obtain ⟨before, inner, behind, hchars, rfl, hnode, hinner⟩ := h
  have hsplit : chars = before ++ '(' :: (inner ++ ')' :: behind) := by
    rw [hchars, hnode, List.cons_append, List.append_assoc]
    rfl
  have hpair : IsPair chars before.length (before.length + 1 + inner.length) :=
    ⟨before, inner, behind, hsplit, hinner, rfl, rfl⟩
  refine ⟨before.length + 1 + inner.length, fun other => ?_, ?_⟩
  · constructor
    · intro hother
      exact hother.unique hpair
    · rintro rfl
      exact hpair
  · have hlength : before.length + 1 + inner.length + 1 - before.length = node.chars.length := by
      rw [hnode]
      simp
      omega
    rw [List.extract_eq_take_drop, hlength, hchars, List.drop_left, List.take_left, Pattern.chars,
      String.ofList_toList]

end Pattern

namespace Derivation

variable {form : Form}

theorem balanced_chars (d : Derivation form) : Balanced d.chars := by
  induction d with
  | single first ih | start first ih => exact ih
  | item inner ih => exact ih
  | bar before last ihb ihl => exact ihb.append (.other (by decide) (by decide) ihl)
  | juxtapose before last ihb ihl => exact ihb.append ihl
  | starred before ih => exact ih.append (.singleton (by decide) (by decide))
  | group body ih | lookahead body ih =>
      exact .enclosed (.other (by decide) (by decide) (.other (by decide) (by decide) ih))
  | capture body ih => exact .enclosed ih
  | link digit isDigit =>
      have hdigit : Balanced [digit] :=
        .singleton (ne_of_isDigit isDigit (by decide)) (ne_of_isDigit isDigit (by decide))
      exact .enclosed (.other (by decide) (by decide) hdigit)
  | symbol c isAlphanum =>
      exact .singleton (ne_of_isAlphanum isAlphanum (by decide))
        (ne_of_isAlphanum isAlphanum (by decide))

theorem forall₂_spans_enclosed (d : Derivation form) {nodes : List Pattern}
    (h : List.Forall₂ (Pattern.Spans d.chars) (captureOpenings d.chars) nodes)
    (front : List Char) :
    List.Forall₂ (Pattern.Spans (front ++ (d.chars ++ [')'])))
      ((captureOpenings d.chars).map (front.length + ·)) nodes :=
  Pattern.forall₂_spans_prepend (Pattern.forall₂_spans_append h [')']) front

/-- The parentheses that open captures and the captures of the pattern correspond to each other,
    one by one. -/
theorem forall₂_spans (d : Derivation form) (opened : Nat) :
    List.Forall₂ (Pattern.Spans d.chars) (captureOpenings d.chars)
      (d.pattern opened).captureNodes := by
  induction d generalizing opened with
  | single first ih | start first ih => exact ih opened
  | item inner ih => exact ih opened
  | bar before last ihb ihl =>
      rw [captureOpenings_bar, pattern, Pattern.captureNodes_alt, chars]
      refine List.rel_append (Pattern.forall₂_spans_append (ihb opened) _) ?_
      rw [List.append_cons]
      exact Pattern.forall₂_spans_prepend (ihl _) _
  | juxtapose before last ihb ihl =>
      rw [captureOpenings_juxtapose, pattern, Pattern.captureNodes_concat, chars]
      exact List.rel_append (Pattern.forall₂_spans_append (ihb opened) _)
        (Pattern.forall₂_spans_prepend (ihl _) _)
  | starred before ih =>
      rw [captureOpenings_starred]
      exact Pattern.forall₂_spans_append (ih opened) ['*']
  | group body ih =>
      rw [captureOpenings_group]
      exact body.forall₂_spans_enclosed (ih opened) ['(', '?', ':']
  | lookahead body ih =>
      rw [captureOpenings_lookahead]
      exact body.forall₂_spans_enclosed (ih opened) ['(', '?', '=']
  | capture body ih =>
      rw [captureOpenings_capture]
      refine .cons ?_ (body.forall₂_spans_enclosed (ih (opened + 1)) ['('])
      -- The text of the capture itself is all of the text.
      have hnode : ((capture body).pattern opened).chars = (capture body).chars :=
        (capture body).chars_pattern opened
      have hwhole : (capture body).chars = [] ++ (((capture body).pattern opened).chars ++ []) := by
        rw [hnode, List.nil_append, List.append_nil]
      exact ⟨[], body.chars, [], hwhole, rfl, hnode, body.balanced_chars⟩
  | link digit isDigit =>
      rw [captureOpenings_link]
      exact .nil
  | symbol c isAlphanum =>
      rw [captureOpenings_symbol]
      exact .nil

end Derivation

/-! ## Whole texts -/

namespace Pattern

/-- The captures of a pattern have the indices `1`, `2` and so on if these are its indices. -/
theorem exists_captureNode {p : Pattern} (h : p.captures = List.range' 1 p.captureCount) {i : Nat}
    (hi : i < p.captureCount) : ∃ body, p.captureNodes[i]? = some (capture body (i + 1)) := by
  have hindices := congrArg (·[i]?) p.map_captureIndex?_captureNodes
  simp only [List.getElem?_map, h, List.getElem?_range' hi, Option.map_some, Nat.one_mul,
    Nat.add_comm 1 i] at hindices
  obtain ⟨node, hnode, hindex⟩ := Option.map_eq_some_iff.1 hindices
  obtain ⟨body, rfl⟩ := captureIndex?_eq_some_iff.1 hindex
  exact ⟨body, hnode⟩

/-- The captures of a pattern that was read from a text are numbered from `1` in pre-order, and
    there is one for each parenthesis that has no question mark behind it. The canonical text of
    such a capture is cut out of the text by its parenthesis and the only one that closes it. -/
theorem captures_are_parentheses {text : String} {p : Pattern} (h : parse text = .ok p) :
    p.captureCount = (captureOpenings text.toList).length
      ∧ p.captures = List.range' 1 p.captureCount
      ∧ ∀ i < p.captureCount, ∃ place closing body,
        (captureOpenings text.toList)[i]? = some place
          ∧ p.captureNodes[i]? = some (capture body (i + 1))
          ∧ (∀ other, IsPair text.toList place other ↔ other = closing)
          ∧ (capture body (i + 1)).text
            = String.ofList (text.toList.extract place (closing + 1)) := by
  obtain ⟨d, hchars, -, rfl⟩ := exists_of_parse_eq_ok h
  have hcaptures : (d.pattern 0).captures = List.range' 1 (d.pattern 0).captureCount := by
    rw [d.captureCount_pattern]
    exact d.captures_pattern 0
  have hspans := d.forall₂_spans 0
  have hopenings := d.length_captureOpenings
  rw [hchars] at hspans hopenings
  refine ⟨(d.captureCount_pattern 0).trans hopenings.symm, hcaptures, ?_⟩
  intro i hi
  obtain ⟨body, hbody⟩ := exists_captureNode hcaptures hi
  obtain ⟨hlt, hget⟩ := List.getElem?_eq_some_iff.1 hbody
  have hplace : i < (captureOpenings text.toList).length := by rwa [hspans.length_eq]
  have hspan := hspans.get hplace hlt
  rw [List.get_eq_getElem, List.get_eq_getElem, hget] at hspan
  obtain ⟨closing, hclosing, htext⟩ := hspan.exists_isPair
  exact ⟨_, closing, body, List.getElem?_eq_getElem hplace, hbody, hclosing, htext⟩

/-- Of the two groups inside the first capture only the one behind is a capture, the second one. -/
theorem captures_are_parentheses_nested :
    parse "((?:a)(b))" = .ok (capture (concat (group (symbol 'a')) (capture (symbol 'b') 2)) 1)
      ∧ (captureOpenings "((?:a)(b))".toList)[1]? = some 6
      ∧ (∀ other, IsPair "((?:a)(b))".toList 6 other ↔ other = 8)
      ∧ (capture (symbol 'b') 2).text = String.ofList ("((?:a)(b))".toList.extract 6 9) := by
  have hparse : parse "((?:a)(b))"
      = .ok (capture (concat (group (symbol 'a')) (capture (symbol 'b') 2)) 1) :=
    parse_of_derivation (d := .single (.start (.item (.capture (.single (.juxtapose
      (.start (.item (.group (.single (.start (.item (.symbol 'a' rfl)))))))
      (.item (.capture (.single (.start (.item (.symbol 'b' rfl)))))))))))) rfl
  obtain ⟨-, -, hall⟩ := captures_are_parentheses hparse
  obtain ⟨place, closing, body, hplace, hbody, hclosing, htext⟩ := hall 1 (by decide)
  obtain rfl : place = 6 := (Option.some.inj hplace).symm
  obtain rfl : body = symbol 'b' := (capture.inj (Option.some.inj hbody)).1.symm
  have hpair : IsPair "((?:a)(b))".toList 6 8 :=
    ⟨"((?:a)".toList, ['b'], [')'], rfl, .singleton (by decide) (by decide), rfl, rfl⟩
  obtain rfl : closing = 8 := ((hclosing 8).1 hpair).symm
  exact ⟨hparse, hplace, hclosing, htext⟩

end Pattern

end PatternGrammar
