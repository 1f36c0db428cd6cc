import PatternGrammar.Pattern.Text
import PatternGrammar.Proofs.Placement

set_option autoImplicit false

/-! # The canonical text and the normal form

The text of a tree is also the text of a tree in which the groups that the printer adds are nodes
of their own (`Pattern.grouped`), and it does not say which indices the captures have. So the most
that can be read from it is that tree with the captures numbered as they are opened
(`Pattern.normal`). -/

namespace PatternGrammar.Pattern

/-! ## The groups that the printer adds -/

/-- A pattern as the operand of a star and as the right operand of a juxtaposition. -/
def asItem : Pattern → Pattern
  | concat left right => group (concat left right)
  | alt left right => group (alt left right)
  | p => p

/-- A pattern as the left operand of a juxtaposition and as the right operand of a bar. -/
def asTerm : Pattern → Pattern
  | alt left right => group (alt left right)
  | p => p

/-- What a group around a pattern inherits from it, the operands have. -/
theorem asOperand_of_group {P : Pattern → Prop} (hgroup : ∀ p, P p → P (group p)) {p : Pattern}
    (h : P p) : P p.asTerm ∧ P p.asItem := by
  cases p with
  | alt left right => exact ⟨hgroup _ h, hgroup _ h⟩
  | concat left right => exact ⟨h, hgroup _ h⟩
  | _ => exact ⟨h, h⟩

/-- The pattern with a group around every operand that binds too loosely for its place. -/
def grouped : Pattern → Pattern
  | symbol c => symbol c
  | star body => star body.grouped.asItem
  | capture body index => capture body.grouped index
  | group body => group body.grouped
  | concat left right => concat left.grouped.asTerm right.grouped.asItem
  | alt left right => alt left.grouped right.grouped.asTerm
  | link index => link index
  | lookahead body => lookahead body.grouped

theorem grouped_asItem (p : Pattern) : p.asItem.grouped = p.grouped.asItem := by
  cases p <;> rfl

theorem grouped_asTerm (p : Pattern) : p.asTerm.grouped = p.grouped.asTerm := by
  cases p <;> rfl

theorem text_asItem (p : Pattern) : p.asItem.text = enclose 2 p.strength p.text := by
  cases p <;> rfl

theorem text_asTerm (p : Pattern) : p.asTerm.text = enclose 1 p.strength p.text := by
  cases p <;> rfl

/-! ## The characters of the text -/

/-- The canonical text as a list of characters. -/
def chars (p : Pattern) : List Char :=
  p.text.toList

theorem chars_symbol (c : Char) : (symbol c).chars = [c] :=
  String.toList_singleton c

theorem chars_star (body : Pattern) : (star body).chars = body.asItem.chars ++ ['*'] := by
  rw [chars, text, ← text_asItem, String.toList_append]
  rfl

theorem chars_capture (body : Pattern) (index : Nat) :
    (capture body index).chars = '(' :: (body.chars ++ [')']) := by
  rw [chars, text, String.toList_append, String.toList_append]
  rfl

theorem chars_group (body : Pattern) :
    (group body).chars = '(' :: '?' :: ':' :: (body.chars ++ [')']) := by
  rw [chars, text, String.toList_append, String.toList_append]
  rfl

theorem chars_lookahead (body : Pattern) :
    (lookahead body).chars = '(' :: '?' :: '=' :: (body.chars ++ [')']) := by
  rw [chars, text, String.toList_append, String.toList_append]
  rfl

theorem chars_concat (left right : Pattern) :
    (concat left right).chars = left.asTerm.chars ++ right.asItem.chars := by
  rw [chars, text, ← text_asTerm, ← text_asItem, String.toList_append]
  rfl

theorem chars_alt (left right : Pattern) :
    (alt left right).chars = left.chars ++ '|' :: right.asTerm.chars := by
  rw [chars, text, ← text_asTerm, String.toList_append, String.toList_append, List.append_assoc]
  rfl

theorem chars_link (index : Nat) :
    (link index).chars = '(' :: '?' :: (Nat.toDigits 10 index ++ [')']) := by
  have hdigits : (toString index).toList = Nat.toDigits 10 index := String.toList_ofList
  rw [chars, text, String.toList_append, String.toList_append, hdigits]
  rfl

/-! ## The nodes of the grouped pattern -/

section

variable {α : Type} {f : Pattern → Option α}

theorem filterMap_nodes_asOperand (hgroup : ∀ body, f (group body) = none) (p : Pattern) :
    p.asTerm.nodes.filterMap f = p.nodes.filterMap f
      ∧ p.asItem.nodes.filterMap f = p.nodes.filterMap f :=
  asOperand_of_group (P := fun operand => operand.nodes.filterMap f = p.nodes.filterMap f)
    (fun body h => (List.filterMap_cons_none (hgroup body)).trans h) rfl

/-- Groups are the only nodes that are added, and the other ones stay in their order. -/
theorem filterMap_nodes_grouped (hgroup : ∀ body, f (group body) = none) (p : Pattern) :
    p.grouped.nodes.filterMap f = p.nodes.filterMap fun node => f node.grouped := by
  have hoperand := filterMap_nodes_asOperand hgroup
  induction p with
  | symbol c | link index => rfl
  | star body ih => simp only [grouped, nodes, List.filterMap_cons, hoperand, ih]
  | capture body index ih | group body ih | lookahead body ih =>
      simp only [grouped, nodes, List.filterMap_cons, ih]
  | concat left right ihl ihr | alt left right ihl ihr =>
      simp only [grouped, nodes, List.filterMap_cons, List.filterMap_append, hoperand, ihl, ihr]

end

theorem captures_grouped (p : Pattern) : p.grouped.captures = p.captures := by
  have hnode : (fun node => captureIndex? (grouped node)) = captureIndex? := by
    funext node
    cases node <;> rfl
  rw [captures, filterMap_nodes_grouped (fun _ => rfl), hnode]
  rfl

/-! ## The number of captures -/

theorem captures_concat (left right : Pattern) :
    (concat left right).captures = left.captures ++ right.captures :=
  List.filterMap_append

theorem captures_alt (left right : Pattern) :
    (alt left right).captures = left.captures ++ right.captures :=
  List.filterMap_append

theorem captureCount_concat (left right : Pattern) :
    (concat left right).captureCount = left.captureCount + right.captureCount := by
  rw [captureCount, captures_concat, List.length_append]
  rfl

theorem captureCount_alt (left right : Pattern) :
    (alt left right).captureCount = left.captureCount + right.captureCount := by
  rw [captureCount, captures_alt, List.length_append]
  rfl

theorem captureCount_asItem (p : Pattern) : p.asItem.captureCount = p.captureCount := by
  cases p <;> rfl

theorem captureCount_asTerm (p : Pattern) : p.asTerm.captureCount = p.captureCount := by
  cases p <;> rfl

theorem captureCount_grouped (p : Pattern) : p.grouped.captureCount = p.captureCount :=
  congrArg List.length p.captures_grouped

/-- The pattern with its captures numbered in pre-order, behind a text that opens `opened` ones. -/
def renumber : Pattern → (opened : Nat) → Pattern
  | symbol c, _ => symbol c
  | star body, opened => star (body.renumber opened)
  | capture body _, opened => capture (body.renumber (opened + 1)) (opened + 1)
  | group body, opened => group (body.renumber opened)
  | concat left right, opened =>
      concat (left.renumber opened) (right.renumber (opened + left.captureCount))
  | alt left right, opened =>
      alt (left.renumber opened) (right.renumber (opened + left.captureCount))
  | link index, _ => link index
  | lookahead body, opened => lookahead (body.renumber opened)

/-- The tree that can be read from the canonical text. -/
def normal (p : Pattern) : Pattern :=
  p.grouped.renumber 0

/-! ## The places of the links in the text -/

/-- The length of the mark that opens a group around an operand, if its place asks for one. -/
def leadLength (least : Nat) (p : Pattern) : Nat :=
  if p.strength < least then 3 else 0

/-- The links from left to right, each with the number of characters before it in the canonical
    text, where `offset` is the number of characters before the text of the pattern. -/
def linkSites : Pattern → (offset : Nat) → List (Nat × Nat)
  | symbol _, _ => []
  | star body, offset => body.linkSites (offset + body.leadLength 2)
  | capture body _, offset => body.linkSites (offset + 1)
  | group body, offset | lookahead body, offset => body.linkSites (offset + 3)
  | concat left right, offset =>
      left.linkSites (offset + left.leadLength 1)
        ++ right.linkSites (offset + left.asTerm.text.length + right.leadLength 2)
  | alt left right, offset =>
      left.linkSites offset
        ++ right.linkSites (offset + left.text.length + 1 + right.leadLength 1)
  | link index, offset => [(offset, index)]

theorem map_snd_linkSites (p : Pattern) (offset : Nat) :
    (p.linkSites offset).map Prod.snd = p.links := by
  induction p generalizing offset with
  | symbol c | link index => rfl
  | star body ih | capture body index ih | group body ih | lookahead body ih => exact ih _
  | concat left right ihl ihr | alt left right ihl ihr =>
      rw [linkSites, List.map_append, ihl, ihr]
      rfl

theorem linkSites_asItem (p : Pattern) (offset : Nat) :
    p.asItem.linkSites offset = p.linkSites (offset + p.leadLength 2) := by
  cases p <;> rfl

theorem linkSites_asTerm (p : Pattern) (offset : Nat) :
    p.asTerm.linkSites offset = p.linkSites (offset + p.leadLength 1) := by
  cases p <;> rfl

theorem linkSites_star (body : Pattern) (offset : Nat) :
    (star body).linkSites offset = body.asItem.linkSites offset := by
  rw [linkSites_asItem]
  rfl

theorem linkSites_concat (left right : Pattern) (offset : Nat) :
    (concat left right).linkSites offset = left.asTerm.linkSites offset
      ++ right.asItem.linkSites (offset + left.asTerm.chars.length) := by
  rw [linkSites_asTerm, linkSites_asItem]
  rfl

theorem linkSites_alt (left right : Pattern) (offset : Nat) :
    (alt left right).linkSites offset = left.linkSites offset
      ++ right.asTerm.linkSites (offset + left.chars.length + 1) := by
  rw [linkSites_asTerm]
  rfl

/-- What stands at the place of each link is the text of the link. -/
def SitesHold (p : Pattern) : Prop :=
  ∀ offset place index, (place, index) ∈ p.linkSites offset →
    ∃ before behind, p.chars = before ++ ((link index).chars ++ behind)
      ∧ place = offset + before.length

theorem SitesHold.within {p inner : Pattern} (h : inner.SitesHold) {offset place index : Nat}
    (before behind : List Char) (hchars : p.chars = before ++ (inner.chars ++ behind))
    (hmem : (place, index) ∈ inner.linkSites (offset + before.length)) :
    ∃ before behind, p.chars = before ++ ((link index).chars ++ behind)
      ∧ place = offset + before.length := by
  obtain ⟨before', behind', hinner, rfl⟩ := h _ _ _ hmem
  refine ⟨before ++ before', behind' ++ behind, ?_, ?_⟩
  · simp only [hchars, hinner, List.append_assoc]
  · rw [List.length_append, Nat.add_assoc]

theorem SitesHold.group (p : Pattern) (h : p.SitesHold) : (group p).SitesHold :=
  fun _ _ _ hmem => h.within ['(', '?', ':'] [')'] (chars_group p) hmem

theorem sitesHold (p : Pattern) : p.SitesHold := by
  induction p with
  | symbol c =>
      intro offset place index hmem
      exact absurd hmem (List.not_mem_nil)
  | link other =>
      intro offset place index hmem
      obtain ⟨rfl, rfl⟩ := Prod.mk.inj (List.mem_singleton.1 hmem)
      exact ⟨[], [], by simp, rfl⟩
  | star body ih =>
      intro offset place index hmem
      have hbody := (asOperand_of_group SitesHold.group ih).2
      exact hbody.within [] ['*'] (chars_star body) (linkSites_star body offset ▸ hmem)
  | capture body other ih =>
      intro offset place index hmem
      exact ih.within ['('] [')'] (chars_capture body other) hmem
  | group body ih => exact ih.group
  | lookahead body ih =>
      intro offset place index hmem
      exact ih.within ['(', '?', '='] [')'] (chars_lookahead body) hmem
  | concat left right ihl ihr =>
      intro offset place index hmem
      have hleft := (asOperand_of_group SitesHold.group ihl).1
      have hright := (asOperand_of_group SitesHold.group ihr).2
      rw [linkSites_concat] at hmem
      rcases List.mem_append.1 hmem with hmem | hmem
      · exact hleft.within [] right.asItem.chars (chars_concat left right) hmem
      · refine hright.within left.asTerm.chars [] ?_ hmem
        rw [chars_concat, List.append_nil]
  | alt left right ihl ihr =>
      intro offset place index hmem
      have hright := (asOperand_of_group SitesHold.group ihr).1
      rw [linkSites_alt] at hmem
      rcases List.mem_append.1 hmem with hmem | hmem
      · exact ihl.within [] ('|' :: right.asTerm.chars) (chars_alt left right) hmem
      · refine hright.within (left.chars ++ ['|']) [] ?_ ?_
        · rw [chars_alt, List.append_nil, List.append_assoc]
          rfl
        · rw [List.length_append, ← Nat.add_assoc]
          exact hmem

end PatternGrammar.Pattern
