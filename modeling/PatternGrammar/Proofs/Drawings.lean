import PatternGrammar.Proofs.Layout

set_option autoImplicit false

/-! # Drawings are unambiguous

No label is the beginning of another one with its line feed, whatever the symbols are, so reading a
drawing from the top there is only one node that a row can show. The node tells how many parts
follow and what stands in front of their rows. So each pattern is found again in its drawing, even
if other text follows, and two patterns with one drawing are the same
(`Pattern.drawing_determines_pattern`). -/

namespace PatternGrammar.Pattern

open Text

/-! ## Labels -/

/-- Two nodes are of the same kind and have the same symbol or index, if any. -/
inductive Alike : Pattern → Pattern → Prop where
  | symbol (c : Char) : Alike (symbol c) (symbol c)
  | star (body body' : Pattern) : Alike (star body) (star body')
  | capture (body body' : Pattern) (index : Nat) : Alike (capture body index) (capture body' index)
  | group (body body' : Pattern) : Alike (group body) (group body')
  | concat (left right left' right' : Pattern) : Alike (concat left right) (concat left' right')
  | alt (left right left' right' : Pattern) : Alike (alt left right) (alt left' right')
  | link (index : Nat) : Alike (link index) (link index)
  | lookahead (body body' : Pattern) : Alike (lookahead body) (lookahead body')

variable {p q : Pattern} {u v : List Char}

theorem Alike.length_children (h : Alike p q) : p.children.length = q.children.length := by
  cases h <;> rfl

theorem Alike.eq_of_children (h : Alike p q) (hchildren : p.children = q.children) : p = q := by
  cases h <;> simp_all [children]

/-- What a label begins with, by which the kind of the node is told. -/
def word : Pattern → String
  | symbol _ => "Symbol: "
  | star _ => "Iterat:"
  | capture _ _ => "Capture ("
  | group _ => "NoCapture:"
  | concat _ _ => "Concat:"
  | alt _ _ => "Alternat:"
  | link _ => "GroupLink (for "
  | lookahead _ => "LookAhead:"

/-- What a label ends with, by which nodes of one kind are told apart. -/
def detail : Pattern → List Char
  | symbol c => [c]
  | capture _ index => Nat.toDigits 10 index ++ [')', ':']
  | link index => Nat.toDigits 10 index ++ [')']
  | star _ | group _ | concat _ _ | alt _ _ | lookahead _ => []

theorem toList_enclosed (opening closing : String) (n : Nat) :
    (opening ++ toString n ++ closing).toList
      = opening.toList ++ (Nat.toDigits 10 n ++ closing.toList) := by
  rw [String.toList_append, String.toList_append, Nat.toString_eq_repr, Nat.toList_repr,
    List.append_assoc]

theorem toList_label (p : Pattern) : p.label.toList = p.word.toList ++ p.detail := by
  cases p with
  | symbol c => exact String.toList_append.trans (by rw [String.toList_singleton]; rfl)
  | capture body index => exact toList_enclosed "Capture (" "):" index
  | link index => exact toList_enclosed "GroupLink (for " ")" index
  | star body | group body | concat left right | alt left right | lookahead body =>
      exact (List.append_nil _).symm

/-- A number ends where the parenthesis behind it stands. -/
theorem eq_of_toDigits_append {m n : Nat}
    (h : Nat.toDigits 10 m ++ ')' :: u = Nat.toDigits 10 n ++ ')' :: v) : m = n ∧ u = v := by
  have hplain : ∀ k, ')' ∉ Nat.toDigits 10 k := by
    intro k hmem
    exact absurd (Nat.isDigit_of_mem_toDigits (by decide) (by decide) hmem) (by decide)
  have hpieces := congrArg (pieces ')') h
  rw [pieces_append (hplain m), pieces_append (hplain n)] at hpieces
  have hdigits := (List.cons.inj hpieces).1
  rw [hdigits, List.append_right_inj] at h
  refine ⟨Nat.repr_inj.1 (String.toList_inj.1 ?_), (List.cons.inj h).2⟩
  rw [Nat.toList_repr, Nat.toList_repr, hdigits]

/-- No label with its line feed is the beginning of another one. -/
theorem alike_of_label
    (h : p.word.toList ++ (p.detail ++ '\n' :: u) = q.word.toList ++ (q.detail ++ '\n' :: v)) :
    Alike p q ∧ u = v := by
  cases p with
  | symbol c =>
      cases q with
      | symbol d =>
          obtain ⟨rfl, hrest⟩ := List.cons.inj (List.append_cancel_left h)
          obtain ⟨-, rfl⟩ := List.cons.inj hrest
          exact ⟨.symbol c, rfl⟩
      | _ => simp [word] at h
  | star body =>
      cases q with
      | star body' => exact ⟨.star body body', by simpa [word, detail] using h⟩
      | _ => simp [word] at h
  | capture body index =>
      cases q with
      | capture body' index' =>
          have hdetail := List.append_cancel_left h
          rw [detail, detail, List.append_assoc, List.append_assoc] at hdetail
          obtain ⟨rfl, hrest⟩ := eq_of_toDigits_append hdetail
          exact ⟨.capture body body' index, (List.cons.inj (List.cons.inj hrest).2).2⟩
      | _ => simp [word] at h
  | group body =>
      cases q with
      | group body' => exact ⟨.group body body', by simpa [word, detail] using h⟩
      | _ => simp [word] at h
  | concat left right =>
      cases q with
      | concat left' right' =>
          exact ⟨.concat left right left' right', by simpa [word, detail] using h⟩
      | _ => simp [word] at h
  | alt left right =>
      cases q with
      | alt left' right' => exact ⟨.alt left right left' right', by simpa [word, detail] using h⟩
      | _ => simp [word] at h
  | link index =>
      cases q with
      | link index' =>
          have hdetail := List.append_cancel_left h
          rw [detail, detail, List.append_assoc, List.append_assoc] at hdetail
          obtain ⟨rfl, hrest⟩ := eq_of_toDigits_append hdetail
          exact ⟨.link index, (List.cons.inj hrest).2⟩
      | _ => simp [word] at h
  | lookahead body =>
      cases q with
      | lookahead body' => exact ⟨.lookahead body body', by simpa [word, detail] using h⟩
      | _ => simp [word] at h

/-! ## Drawings -/

/-- A text that begins with the rows of the pattern begins with the rows of no other pattern in the
    same place, and it tells where these rows end. -/
def IsDetermined (p : Pattern) : Prop :=
  ∀ (q : Pattern) (margin indent : String) (u v : List Char),
    (unlines (p.rowsAt margin indent)).toList ++ u
        = (unlines (q.rowsAt margin indent)).toList ++ v →
      p = q ∧ u = v

theorem toList_rowsAt_append (p : Pattern) (margin indent : String) (rest : List Char) :
    (unlines (p.rowsAt margin indent)).toList ++ rest
      = margin.toList ++ (p.word.toList ++ (p.detail ++ '\n' ::
        ((unlines (partRows indent p.children)).toList ++ rest))) := by
  rw [rowsAt_eq_cons, unlines_cons, String.toList_append, String.toList_append,
    String.toList_append, toList_label]
  simp

theorem toList_partRows_append (indent : String) (part : Pattern) (behind : List Pattern)
    (rest : List Char) :
    (unlines (partRows indent (part :: behind))).toList ++ rest
      = (unlines (part.rowsAt (indent ++ branch behind.isEmpty)
          (indent ++ column behind.isEmpty))).toList
        ++ ((unlines (partRows indent behind)).toList ++ rest) := by
  rw [partRows, unlines_append, String.toList_append, List.append_assoc]

/-- Parts are found one after the other, if it is known how many there are. -/
theorem eq_of_partRows {parts parts' : List Pattern} (hlength : parts.length = parts'.length)
    (hparts : ∀ part ∈ parts, part.IsDetermined) {indent : String} {u v : List Char}
    (h : (unlines (partRows indent parts)).toList ++ u
      = (unlines (partRows indent parts')).toList ++ v) :
    parts = parts' ∧ u = v := by
  induction parts generalizing parts' with
  | nil =>
      obtain rfl := List.length_eq_zero_iff.1 hlength.symm
      exact ⟨rfl, h⟩
  | cons part behind ih =>
      rw [List.forall_mem_cons] at hparts
      cases parts' with
      | nil => exact nomatch hlength
      | cons part' behind' =>
          have hbehind := Nat.succ.inj hlength
          -- Both parts are the last ones of their parents or neither is, so they stand alike.
          have hempty : behind'.isEmpty = behind.isEmpty := by
            rw [Bool.eq_iff_iff, List.isEmpty_iff_length_eq_zero, List.isEmpty_iff_length_eq_zero,
              hbehind]
          rw [toList_partRows_append, toList_partRows_append, hempty] at h
          obtain ⟨rfl, hrest⟩ := hparts.1 _ _ _ _ _ h
          obtain ⟨rfl, hleft⟩ := ih hbehind hparts.2 hrest
          exact ⟨rfl, hleft⟩

theorem isDetermined_of_children (h : ∀ part ∈ p.children, part.IsDetermined) :
    p.IsDetermined := by
  intro q margin indent u v heq
  rw [toList_rowsAt_append, toList_rowsAt_append] at heq
  obtain ⟨halike, hrest⟩ := alike_of_label (List.append_cancel_left heq)
  obtain ⟨hchildren, hleft⟩ := eq_of_partRows halike.length_children h hrest
  exact ⟨halike.eq_of_children hchildren, hleft⟩

theorem isDetermined (p : Pattern) : p.IsDetermined := by
  induction p with
  | symbol c | link index => exact isDetermined_of_children nofun
  | star body ih | capture body index ih | group body ih | lookahead body ih =>
      exact isDetermined_of_children (List.forall_mem_singleton.2 ih)
  | concat left right ihl ihr | alt left right ihl ihr =>
      exact isDetermined_of_children
        (List.forall_mem_cons.2 ⟨ihl, List.forall_mem_singleton.2 ihr⟩)

/-- A drawing tells its pattern, even if a symbol is a line feed or a character of the branches. -/
theorem drawing_determines_pattern (p q : Pattern) : p.drawing = q.drawing ↔ p = q := by
  constructor
  · intro h
    refine (p.isDetermined q "" "" [] [] ?_).1
    rw [List.append_nil, List.append_nil]
    exact congrArg String.toList h
  · rintro rfl
    rfl

end PatternGrammar.Pattern
