import PatternGrammar.Pattern.Drawing
import PatternGrammar.Proofs.Placement
import PatternGrammar.Proofs.Printing
import PatternGrammar.Proofs.Splitting

set_option autoImplicit false

/-! # The layout of drawings

A drawing has one row for each node in pre-order. What stands in front of the label follows from
the way down from the root to the node: a column for each node that is passed, the root excepted,
and a branch for the node itself, each depending on whether there is a further part behind
(`Pattern.drawing_shows_nodes`). As the rules of a grammar follow the same order, the rows of a
drawing and the rules of a grammar belong together one by one. -/

namespace PatternGrammar.Pattern

open Text

/-! ## Margins -/

/-- What stands right in front of the label of a node, if the node is the last part of its parent
    and if it is not. -/
def branch (last : Bool) : String :=
  if last then "└── " else "├── "

/-- What stands below the branch of a node, in front of everything that belongs to its parts. -/
def column (last : Bool) : String :=
  if last then "    " else "│   "

/-- What stands in front of all rows below a node, where `lasts` tells of each node on the way down
    to it, the root excepted, whether it is the last part of its parent. -/
def indent (lasts : List Bool) : String :=
  String.join (lasts.map column)

/-- What stands in front of the label of a node. -/
def margin (lasts : List Bool) : String :=
  match lasts.getLast? with
  | none => ""
  | some last => indent lasts.dropLast ++ branch last

theorem indent_concat (lasts : List Bool) (last : Bool) :
    indent (lasts ++ [last]) = indent lasts ++ column last := by
  simp [indent]

theorem margin_concat (lasts : List Bool) (last : Bool) :
    margin (lasts ++ [last]) = indent lasts ++ branch last := by
  rw [margin, List.getLast?_concat, List.dropLast_concat]

/-! ## The rows of the parts -/

/-- The rows of the parts of a node, one part below the other. -/
def partRows (indent : String) : List Pattern → List String
  | [] => []
  | part :: behind =>
      part.rowsAt (indent ++ branch behind.isEmpty) (indent ++ column behind.isEmpty) ++
        partRows indent behind

theorem rowsAt_eq_cons (margin indent : String) (p : Pattern) :
    p.rowsAt margin indent = (margin ++ p.label) :: partRows indent p.children := by
  cases p <;> simp [rowsAt, children, partRows, branch, column]

theorem length_rowsAt (margin indent : String) (p : Pattern) :
    (p.rowsAt margin indent).length = p.size := by
  induction p generalizing margin indent with
  | symbol c | link index => rfl
  | star body ih | capture body index ih | group body ih | lookahead body ih =>
      simp [rowsAt, size, ih, Nat.add_comm]
  | concat left right ihl ihr | alt left right ihl ihr =>
      simp [rowsAt, size, ihl, ihr]
      omega

/-- The rows of the parts of a node that stand behind the rows of other parts are the same as they
    would be without these. -/
theorem exists_partRows_append (indent : String) (before behind : List Pattern) :
    ∃ rows, rows.length = (before.flatMap nodes).length
      ∧ partRows indent (before ++ behind) = rows ++ partRows indent behind := by
  induction before with
  | nil => exact ⟨[], rfl, rfl⟩
  | cons part before ih =>
      obtain ⟨rows, hlength, hrows⟩ := ih
      rw [List.cons_append, partRows, hrows, ← List.append_assoc]
      refine ⟨_, ?_, rfl⟩
      rw [List.length_append, length_rowsAt, hlength, List.flatMap_cons, List.length_append,
        length_nodes]

/-! ## The way to a node -/

/-- There is a way down from the root to `node`, in front of which `k` nodes stand in pre-order. Of
    each node on the way, the root excepted, `lasts` tells whether it is the last part of its
    parent. -/
inductive Reaches (p : Pattern) : Nat → List Bool → Pattern → Prop where
  | root : Reaches p 0 [] p
  | part {k : Nat} {lasts : List Bool} {node part : Pattern} {before behind : List Pattern}
      (h : Reaches p k lasts node) (hparts : node.children = before ++ part :: behind) :
      Reaches p (k + 1 + (before.flatMap nodes).length) (lasts ++ [behind.isEmpty]) part

variable {p node : Pattern} {k : Nat} {lasts : List Bool}

theorem Reaches.nodeAt? (h : p.Reaches k lasts node) : p.nodeAt? (k + 1) = some node := by
  induction h with
  | root => exact p.nodeAt?_one
  | part h hparts ih =>
      rw [Nat.add_right_comm]
      exact nodeAt?_part ih hparts

theorem Reaches.first {part : Pattern} {behind : List Pattern} (h : p.Reaches k lasts node)
    (hparts : node.children = part :: behind) :
    p.Reaches (k + 1) (lasts ++ [behind.isEmpty]) part :=
  @Reaches.part p k lasts node part [] behind h hparts

theorem Reaches.second {left right : Pattern} (h : p.Reaches k lasts node)
    (hparts : node.children = [left, right]) :
    p.Reaches (k + 1 + left.size) (lasts ++ [true]) right := by
  have hright := @Reaches.part p k lasts node right [left] [] h hparts
  rwa [List.flatMap_singleton, length_nodes] at hright

/-- From a node there is a way on to all nodes of its listing. -/
theorem Reaches.within (h : p.Reaches k lasts node) {j : Nat} {inner : Pattern}
    (hj : node.nodes[j]? = some inner) : ∃ lasts', p.Reaches (k + j) lasts' inner := by
  induction node generalizing k lasts j with
  | symbol c | link index =>
      cases j with
      | zero =>
          obtain rfl := Option.some.inj hj
          exact ⟨lasts, h⟩
      | succ j => simp [nodes] at hj
  | star body ih | capture body index ih | group body ih | lookahead body ih =>
      cases j with
      | zero =>
          obtain rfl := Option.some.inj hj
          exact ⟨lasts, h⟩
      | succ j =>
          rw [← Nat.add_assoc, Nat.add_right_comm]
          exact ih (h.first rfl) hj
  | concat left right ihl ihr | alt left right ihl ihr =>
      cases j with
      | zero =>
          obtain rfl := Option.some.inj hj
          exact ⟨lasts, h⟩
      | succ j =>
          rw [nodes, List.getElem?_cons_succ] at hj
          by_cases hlt : j < left.nodes.length
          · rw [List.getElem?_append_left hlt] at hj
            rw [← Nat.add_assoc, Nat.add_right_comm]
            exact ihl (h.first rfl) hj
          · have hle : left.nodes.length ≤ j := Nat.le_of_not_lt hlt
            rw [List.getElem?_append_right hle, length_nodes] at hj
            rw [length_nodes] at hle
            rw [show k + (j + 1) = k + 1 + left.size + (j - left.size) by omega]
            exact ihr (h.second rfl) hj

theorem exists_reaches (h : p.nodeAt? (k + 1) = some node) : ∃ lasts, p.Reaches k lasts node := by
  obtain ⟨lasts, hway⟩ := Reaches.root.within (j := k) h
  exact ⟨lasts, by simpa using hway⟩

/-! ## The row of a node -/

/-- The rows of a node stand together. -/
theorem Reaches.drop_rows (h : p.Reaches k lasts node) :
    ∃ behind, p.rows.drop k = node.rowsAt (margin lasts) (indent lasts) ++ behind := by
  induction h with
  | root => exact ⟨[], (List.append_nil _).symm⟩
  | @part k lasts node part before behind h hparts ih =>
      obtain ⟨rest, hrest⟩ := ih
      have hbelow : p.rows.drop (k + 1) = partRows (indent lasts) node.children ++ rest := by
        rw [← List.drop_drop, hrest, rowsAt_eq_cons]
        rfl
      obtain ⟨rows, hlength, hrows⟩ :=
        exists_partRows_append (indent lasts) before (part :: behind)
      have hpart : p.rows.drop (k + 1 + (before.flatMap nodes).length)
          = partRows (indent lasts) (part :: behind) ++ rest := by
        rw [← List.drop_drop, hbelow, hparts, hrows, List.append_assoc, ← hlength, List.drop_left]
      refine ⟨partRows (indent lasts) behind ++ rest, ?_⟩
      rw [hpart, partRows, margin_concat, indent_concat, List.append_assoc]

theorem Reaches.getElem?_rows (h : p.Reaches k lasts node) :
    p.rows[k]? = some (margin lasts ++ node.label) := by
  obtain ⟨behind, hbehind⟩ := h.drop_rows
  rw [← Nat.add_zero k, ← List.getElem?_drop, hbehind, rowsAt_eq_cons]
  rfl

theorem length_rows (p : Pattern) : p.rows.length = p.size :=
  p.length_rowsAt "" ""

/-- There are no other rows than those of the nodes. -/
theorem exists_of_mem_rows {row : String} (h : row ∈ p.rows) :
    ∃ lasts node, node ∈ p.nodes ∧ row = margin lasts ++ node.label := by
  obtain ⟨k, hrow⟩ := List.mem_iff_getElem?.1 h
  have hlt : k < p.nodes.length := by
    rw [length_nodes, ← length_rows]
    exact (List.getElem?_eq_some_iff.1 hrow).1
  have hnode : p.nodes[k]? = some p.nodes[k] := List.getElem?_eq_getElem hlt
  obtain ⟨lasts, hway⟩ := exists_reaches hnode
  refine ⟨lasts, p.nodes[k], List.getElem_mem hlt, ?_⟩
  exact Option.some.inj (hrow.symm.trans hway.getElem?_rows)

theorem splitLines_drawing (h : symbol '\n' ∉ p.nodes) : splitLines p.drawing = p.rows :=
  splitLines_unlines (p.avoids_rows lineFeed_isControl h)

/-- A drawing has one line for each node, in pre-order: its label behind the margin that follows
    from the way to the node. If the pattern has a grammar, then there are as many rules, and each
    line shows the node that dictates the rule with the number of the line. -/
theorem drawing_shows_nodes (h : symbol '\n' ∉ p.nodes) :
    (splitLines p.drawing).length = p.size
      ∧ (∀ k node, p.nodeAt? (k + 1) = some node ↔ ∃ lasts, p.Reaches k lasts node)
      ∧ (∀ k lasts node, p.Reaches k lasts node →
        (splitLines p.drawing)[k]? = some (margin lasts ++ node.label))
      ∧ ∀ g, p.grammar = .ok g → (splitLines p.drawing).length = g.size
        ∧ ∀ k lasts node, p.Reaches k lasts node → ∃ alternatives,
          g.get? ⟨k + 1⟩ = some alternatives ∧ p.Dictates (k + 1) node alternatives := by
  rw [splitLines_drawing h]
  refine ⟨p.length_rows, fun k node => ⟨exists_reaches, ?_⟩, fun k lasts node hway => ?_,
    fun g hg => ⟨?_, fun k lasts node hway => ?_⟩⟩
  · rintro ⟨lasts, hway⟩
    exact hway.nodeAt?
  · exact hway.getElem?_rows
  · obtain ⟨-, -, rfl⟩ := grammar_eq_ok_iff.1 hg
    rw [length_rows, Grammar.size, List.size_toArray, length_placement]
  · exact get?_grammar hg hway.nodeAt?

/-- The last row but one for `(a)|b*(?1)`: its node stands below the last part of the root and there
    below a part that is not the last one. -/
theorem drawing_shows_nodes_nested :
    (splitLines (alt (capture (symbol 'a') 1) (concat (star (symbol 'b')) (link 1))).drawing)[5]?
        = some "    │   └── Symbol: b"
      ∧ ∃ g, (alt (capture (symbol 'a') 1) (concat (star (symbol 'b')) (link 1))).grammar = .ok g
        ∧ (splitLines
          (alt (capture (symbol 'a') 1) (concat (star (symbol 'b')) (link 1))).drawing).length
            = g.size := by
  have hgrammar : ∃ g,
      (alt (capture (symbol 'a') 1) (concat (star (symbol 'b')) (link 1))).grammar = .ok g :=
    ⟨_, rfl⟩
  generalize hp : alt (capture (symbol 'a') 1) (concat (star (symbol 'b')) (link 1)) = p
    at hgrammar
  have hplain : symbol '\n' ∉ p.nodes := by
    subst hp
    decide
  have hparts : p.children = [capture (symbol 'a') 1, concat (star (symbol 'b')) (link 1)] := by
    subst hp
    rfl
  have hright : p.Reaches 3 [true] (concat (star (symbol 'b')) (link 1)) :=
    Reaches.root.second hparts
  have hstar : p.Reaches 4 [true, false] (star (symbol 'b')) := hright.first rfl
  have hsymbol : p.Reaches 5 [true, false, true] (symbol 'b') := hstar.first rfl
  obtain ⟨-, -, hlines, hrules⟩ := drawing_shows_nodes hplain
  constructor
  · rw [hlines 5 _ _ hsymbol]
    decide
  · obtain ⟨g, hg⟩ := hgrammar
    exact ⟨g, hg, (hrules g hg).1⟩

end PatternGrammar.Pattern
