import PatternGrammar.Text.Lines

set_option autoImplicit false

/-! # Lines and blocks of a text

A text is cut into its lines at the line feeds, and into its blocks at the empty lines. Both are
cuts of a sequence at all occurrences of an item (`Text.pieces`). Cutting undoes joining: the lines
of joined lines are these lines (`Text.splitLines_unlines`), and blocks that were joined with an
empty line between any two of them are found again (`Text.splitBlocks_intercalate`). -/

namespace PatternGrammar.Text

/-! ## Cutting a sequence -/

section Pieces

variable {α : Type} [DecidableEq α]

/-- The pieces of a sequence between the occurrences of an item. Behind the last occurrence there
    is another piece only if something stands there. -/
def pieces (x : α) : List α → List (List α)
  | [] => []
  | y :: rest =>
      if y = x then [] :: pieces x rest
      else
        match pieces x rest with
        | [] => [[y]]
        | piece :: more => (y :: piece) :: more

variable {x : α} {items : List α}

theorem pieces_cons_self (rest : List α) : pieces x (x :: rest) = [] :: pieces x rest := by
  rw [pieces, if_pos rfl]

theorem pieces_ne_nil (h : items ≠ []) : pieces x items ≠ [] := by
  cases items with
  | nil => exact absurd rfl h
  | cons y rest =>
      rw [pieces]
      split
      · exact List.cons_ne_nil _ _
      · split <;> exact List.cons_ne_nil _ _

/-- A piece that is ended is the first one, whatever follows. -/
theorem pieces_append {piece : List α} (h : x ∉ piece) (rest : List α) :
    pieces x (piece ++ x :: rest) = piece :: pieces x rest := by
  induction piece with
  | nil => exact pieces_cons_self rest
  | cons y piece ih =>
      rw [List.mem_cons, not_or] at h
      rw [List.cons_append, pieces, if_neg (Ne.symm h.1), ih h.2]

theorem pieces_eq_singleton (h : x ∉ items) (hsome : items ≠ []) : pieces x items = [items] := by
  induction items with
  | nil => exact absurd rfl hsome
  | cons y rest ih =>
      rw [List.mem_cons, not_or] at h
      rw [pieces, if_neg (Ne.symm h.1)]
      cases rest with
      | nil => rfl
      | cons z rest => rw [ih h.2 (List.cons_ne_nil z rest)]

/-- What is ended has the same pieces whatever follows. -/
theorem pieces_append_of_ended (front rest : List α) :
    pieces x (front ++ [x] ++ rest) = pieces x (front ++ [x]) ++ pieces x rest := by
  induction front with
  | nil =>
      rw [List.nil_append, List.singleton_append, pieces_cons_self, pieces_cons_self]
      rfl
  | cons y front ih =>
      rw [List.cons_append, List.cons_append, pieces, pieces, ih]
      by_cases h : y = x
      · rw [if_pos h, if_pos h, List.cons_append]
      · rw [if_neg h, if_neg h]
        cases hpieces : pieces x (front ++ [x]) with
        | nil => exact absurd hpieces (pieces_ne_nil (by simp))
        | cons piece more => rfl

/-- Ending each piece gives back what is ended. -/
theorem flatMap_pieces_of_ended (front : List α) :
    (pieces x (front ++ [x])).flatMap (· ++ [x]) = front ++ [x] := by
  induction front with
  | nil => simp [pieces]
  | cons y front ih =>
      rw [List.cons_append, pieces]
      by_cases h : y = x
      · rw [if_pos h, List.flatMap_cons, ih, h]
        rfl
      · rw [if_neg h]
        cases hpieces : pieces x (front ++ [x]) with
        | nil => exact absurd hpieces (pieces_ne_nil (by simp))
        | cons piece more =>
            rw [hpieces, List.flatMap_cons] at ih
            rw [List.flatMap_cons, List.cons_append, List.cons_append, ih]

/-- Parts that an item joins can be told apart if the item occurs in none of them. -/
theorem intercalate_injective {parts parts' : List (List α)} (hsome : parts ≠ [])
    (hsome' : parts' ≠ []) (h : ∀ part ∈ parts, x ∉ part) (h' : ∀ part ∈ parts', x ∉ part)
    (heq : [x].intercalate parts = [x].intercalate parts') : parts = parts' := by
  rw [← List.splitOn_intercalate x h hsome, heq, List.splitOn_intercalate x h' hsome']

end Pieces

/-! ## Lines -/

/-- The lines of a text. Behind the last line feed there is another line only if something stands
    there. -/
def splitLines (text : String) : List String :=
  (pieces '\n' text.toList).map String.ofList

theorem splitLines_cons_append {line : String} (h : '\n' ∉ line.toList) (rest : String) :
    splitLines (line ++ "\n" ++ rest) = line :: splitLines rest := by
  have hchars : (line ++ "\n" ++ rest).toList = line.toList ++ '\n' :: rest.toList := by simp
  rw [splitLines, hchars, pieces_append h, List.map_cons, String.ofList_toList]
  rfl

theorem splitLines_unlines {lines : List String} (h : ∀ line ∈ lines, '\n' ∉ line.toList) :
    splitLines (unlines lines) = lines := by
  induction lines with
  | nil => rfl
  | cons line rest ih =>
      rw [List.forall_mem_cons] at h
      rw [unlines_cons, splitLines_cons_append h.1, ih h.2]

/-- Lines that are ended one by one can be told apart if none of them holds a line feed. -/
theorem unlines_injective {lines lines' : List String} (h : ∀ line ∈ lines, '\n' ∉ line.toList)
    (h' : ∀ line ∈ lines', '\n' ∉ line.toList) (heq : unlines lines = unlines lines') :
    lines = lines' := by
  rw [← splitLines_unlines h, heq, splitLines_unlines h']

/-! ## Blocks -/

/-- The blocks of a text: what stands between its empty lines. -/
def splitBlocks (text : String) : List String :=
  (pieces "" (splitLines text)).map unlines

/-- A text consists of lines, at least one, and none of them is empty. -/
structure IsBlock (text : String) : Prop where
  nonempty : text ≠ ""
  ended : ∃ front, text = front ++ "\n"
  solid : "" ∉ splitLines text

variable {text : String}

theorem toList_unlines (lines : List String) :
    (unlines lines).toList = (lines.map String.toList).flatMap (· ++ ['\n']) := by
  induction lines with
  | nil => rfl
  | cons line rest ih =>
      rw [unlines_cons, String.toList_append, String.toList_append, ih]
      rfl

theorem splitLines_append_of_ended (front rest : String) :
    splitLines (front ++ "\n" ++ rest) = splitLines (front ++ "\n") ++ splitLines rest := by
  rw [splitLines, splitLines, splitLines, ← List.map_append]
  have hfront : (front ++ "\n").toList = front.toList ++ ['\n'] := String.toList_append
  rw [String.toList_append, hfront, pieces_append_of_ended]

theorem unlines_splitLines_of_ended (front : String) :
    unlines (splitLines (front ++ "\n")) = front ++ "\n" := by
  have hfront : (front ++ "\n").toList = front.toList ++ ['\n'] := String.toList_append
  have hlines : (splitLines (front ++ "\n")).map String.toList
      = pieces '\n' (front.toList ++ ['\n']) := by
    rw [splitLines, hfront, List.map_map]
    exact List.map_id'' (fun _ => String.toList_ofList) _
  rw [← String.toList_inj, toList_unlines, hlines, flatMap_pieces_of_ended, hfront]

theorem IsBlock.splitLines_ne_nil (h : IsBlock text) : splitLines text ≠ [] := by
  intro hnil
  obtain ⟨front, rfl⟩ := h.ended
  have hempty := unlines_splitLines_of_ended front
  rw [hnil] at hempty
  exact h.nonempty hempty.symm

theorem IsBlock.splitBlocks_eq (h : IsBlock text) : splitBlocks text = [text] := by
  rw [splitBlocks, pieces_eq_singleton h.solid h.splitLines_ne_nil]
  obtain ⟨front, rfl⟩ := h.ended
  rw [List.map_singleton, unlines_splitLines_of_ended]

/-- A block that an empty line follows is the first one, whatever stands behind that line. -/
theorem IsBlock.splitBlocks_append (h : IsBlock text) (rest : String) :
    splitBlocks (text ++ "\n" ++ rest) = text :: splitBlocks rest := by
  have hsolid := h.solid
  obtain ⟨front, rfl⟩ := h.ended
  have hlines : splitLines (front ++ "\n" ++ "\n" ++ rest)
      = splitLines (front ++ "\n") ++ "" :: splitLines rest := by
    rw [String.append_assoc, splitLines_append_of_ended, ← String.empty_append (s := "\n"),
      splitLines_cons_append (by decide)]
  rw [splitBlocks, hlines, pieces_append hsolid, List.map_cons, unlines_splitLines_of_ended]
  rfl

/-- Blocks with an empty line between any two of them are found again. -/
theorem splitBlocks_intercalate {texts : List String} (h : ∀ text ∈ texts, IsBlock text) :
    splitBlocks ("\n".intercalate texts) = texts := by
  induction texts with
  | nil => rfl
  | cons text rest ih =>
      rw [List.forall_mem_cons] at h
      by_cases hrest : rest = []
      · subst hrest
        rw [String.intercalate_singleton, h.1.splitBlocks_eq]
      · rw [String.intercalate_cons_of_ne_nil hrest, h.1.splitBlocks_append, ih h.2]

/-- A line that is not empty and holds no line feed. -/
structure IsSolid (line : String) : Prop where
  nonempty : line ≠ ""
  unbroken : '\n' ∉ line.toList

/-- Solid lines, at least one of them, make a block. -/
theorem isBlock_unlines {lines : List String} (hsome : lines ≠ [])
    (h : ∀ line ∈ lines, IsSolid line) : IsBlock (unlines lines) := by
  have hlines := splitLines_unlines fun line hline => (h line hline).unbroken
  refine ⟨?_, ?_, ?_⟩
  · intro hempty
    rw [hempty] at hlines
    exact hsome hlines.symm
  · obtain ⟨front, last, rfl⟩ := List.eq_nil_or_concat lines |>.resolve_left hsome
    exact ⟨unlines front ++ last, by simp [String.append_assoc]⟩
  · rw [hlines]
    exact fun hempty => (h "" hempty).nonempty rfl

end PatternGrammar.Text
