import PatternGrammar.Pattern.Basic

set_option autoImplicit false

/-! # Places in the pre-order listing

`Pattern.nodeAt? p k` is the node at place `k` of the listing of `p`, counted from one. The listing
of a node is a block of every listing that the node is in (`nodeAt?_add`), so the places of the
parts of a node follow from the place of the node alone. -/

namespace PatternGrammar.Pattern

/-- The node at a place of the pre-order listing, where the pattern itself stands at place `1`. -/
def nodeAt? (p : Pattern) : Nat → Option Pattern
  | 0 => none
  | k + 1 => p.nodes[k]?

@[simp] theorem nodeAt?_succ (p : Pattern) (k : Nat) : p.nodeAt? (k + 1) = p.nodes[k]? := rfl

theorem getElem?_nodes_zero (p : Pattern) : p.nodes[0]? = some p := by
  cases p <;> rfl

theorem nodeAt?_one (p : Pattern) : p.nodeAt? 1 = some p :=
  getElem?_nodes_zero p

theorem mem_nodes_iff {p node : Pattern} : node ∈ p.nodes ↔ ∃ k, p.nodeAt? k = some node := by
  rw [List.mem_iff_getElem?]
  constructor
  · rintro ⟨k, hk⟩
    exact ⟨k + 1, hk⟩
  · rintro ⟨_ | k, hk⟩
    · exact absurd hk (by simp [nodeAt?])
    · exact ⟨k, hk⟩

theorem mem_nodes_self (p : Pattern) : p ∈ p.nodes :=
  mem_nodes_iff.2 ⟨1, p.nodeAt?_one⟩

/-- The nodes of a node are nodes of the whole, and they stand behind it in the same order. -/
theorem getElem?_nodes_add {p node inner : Pattern} {k j : Nat} (hk : p.nodes[k]? = some node)
    (hj : node.nodes[j]? = some inner) : p.nodes[k + j]? = some inner := by
  induction p generalizing k with
  | symbol c | link index =>
      cases k with
      | zero =>
          simp only [nodes, List.getElem?_cons_zero, Option.some.injEq] at hk
          subst hk
          simpa using hj
      | succ k => simp [nodes] at hk
  | star body ih | capture body index ih | group body ih | lookahead body ih =>
      cases k with
      | zero =>
          simp only [nodes, List.getElem?_cons_zero, Option.some.injEq] at hk
          subst hk
          simpa using hj
      | succ k =>
          simp only [nodes, List.getElem?_cons_succ] at hk
          simpa [nodes, Nat.succ_add] using ih hk
  | concat left right ihl ihr | alt left right ihl ihr =>
      cases k with
      | zero =>
          simp only [nodes, List.getElem?_cons_zero, Option.some.injEq] at hk
          subst hk
          simpa using hj
      | succ k =>
          simp only [nodes, List.getElem?_cons_succ] at hk
          simp only [nodes, Nat.succ_add, List.getElem?_cons_succ]
          -- A node of one part has all of its nodes in the listing of that part.
          by_cases hlt : k < left.nodes.length
          · rw [List.getElem?_append_left hlt] at hk
            have hin := ihl hk
            rw [List.getElem?_append_left (List.getElem?_eq_some_iff.1 hin).1]
            exact hin
          · have hle : left.nodes.length ≤ k := Nat.le_of_not_lt hlt
            rw [List.getElem?_append_right hle] at hk
            rw [List.getElem?_append_right (by omega),
              show k + j - left.nodes.length = k - left.nodes.length + j by omega]
            exact ihr hk

theorem nodeAt?_add {p node inner : Pattern} {k j : Nat} (hk : p.nodeAt? k = some node)
    (hj : node.nodeAt? (j + 1) = some inner) : p.nodeAt? (k + j) = some inner := by
  cases k with
  | zero => simp [nodeAt?] at hk
  | succ k =>
      rw [Nat.succ_add]
      exact getElem?_nodes_add hk hj

/-! ## The places of the parts -/

theorem nodes_eq_cons (p : Pattern) : p.nodes = p :: p.children.flatMap nodes := by
  cases p <;> simp [nodes, children]

theorem size_pos (p : Pattern) : 0 < p.size := by
  rw [← length_nodes, nodes_eq_cons]
  exact Nat.zero_lt_succ _

/-- A part stands behind its parent and behind all nodes of the parts before it. -/
theorem nodeAt?_part {p node part : Pattern} {k : Nat} {before behind : List Pattern}
    (hk : p.nodeAt? k = some node) (hparts : node.children = before ++ part :: behind) :
    p.nodeAt? (k + 1 + (before.flatMap nodes).length) = some part := by
  rw [Nat.add_assoc, Nat.add_comm 1]
  refine nodeAt?_add hk ?_
  rw [nodeAt?_succ, nodes_eq_cons, hparts, List.getElem?_cons_succ, List.flatMap_append,
    List.getElem?_append_right (Nat.le_refl _), Nat.sub_self, List.flatMap_cons,
    nodes_eq_cons part]
  rfl

/-- The only part of a node with one part stands right behind the node. -/
theorem nodeAt?_body {p node body : Pattern} {k : Nat} (hk : p.nodeAt? k = some node)
    (hbody : node.children = [body]) : p.nodeAt? (k + 1) = some body :=
  @nodeAt?_part p node body k [] [] hk hbody

/-- The left one of two parts stands right behind the node. -/
theorem nodeAt?_left {p node left right : Pattern} {k : Nat} (hk : p.nodeAt? k = some node)
    (hparts : node.children = [left, right]) : p.nodeAt? (k + 1) = some left :=
  @nodeAt?_part p node left k [] [right] hk hparts

/-- The right one of two parts stands behind all nodes of the left one. -/
theorem nodeAt?_right {p node left right : Pattern} {k : Nat} (hk : p.nodeAt? k = some node)
    (hparts : node.children = [left, right]) :
    p.nodeAt? (k + 1 + left.size) = some right := by
  have hright := @nodeAt?_part p node right k [left] [] hk hparts
  rwa [List.flatMap_singleton, length_nodes] at hright

end PatternGrammar.Pattern
