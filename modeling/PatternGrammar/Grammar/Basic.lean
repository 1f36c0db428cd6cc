set_option autoImplicit false

/-! # Grammars

A context-free grammar whose non-terminals are numbered from one in the order of their allocation.
A grammar grows by `Grammar.fresh`, which allocates the next name with no alternatives yet, and
`Grammar.define`, which sets the alternatives of a name. The first name is the start. -/

namespace PatternGrammar

/-- The non-terminal with a given number. -/
structure NonTerminal where
  number : Nat
  deriving DecidableEq

namespace Grammar

/-- A symbol on the right side of a rule. -/
inductive Symbol where
  /-- The character `c`. -/
  | terminal (c : Char)
  /-- Whatever the rule of `name` stands for. -/
  | nonTerminal (name : NonTerminal)
  /-- The empty word. -/
  | epsilon
  deriving DecidableEq

/-- One of the sequences of symbols that a rule allows. -/
abbrev Alternative := List Symbol

end Grammar

/-- A grammar; the alternatives of the non-terminal `k + 1` stand at place `k` of `rules`. -/
structure Grammar where
  rules : Array (List Grammar.Alternative)
  deriving DecidableEq

namespace Grammar

/-- The grammar without rules. -/
def empty : Grammar := ⟨#[]⟩

/-! ## Growing -/

/-- Allocates the next non-terminal, with no alternatives yet. -/
def fresh (g : Grammar) : NonTerminal × Grammar :=
  (⟨g.rules.size + 1⟩, ⟨g.rules.push []⟩)

/-- Sets the alternatives of a non-terminal. A name that was not allocated changes nothing. -/
def define (g : Grammar) (name : NonTerminal) (alternatives : List Alternative) : Grammar :=
  match name.number with
  | 0 => g
  | k + 1 => ⟨g.rules.setIfInBounds k alternatives⟩

/-! ## Views -/

/-- The number of rules. -/
def size (g : Grammar) : Nat := g.rules.size

/-- Whether there is no rule. -/
def isEmpty (g : Grammar) : Bool := g.rules.isEmpty

/-- The alternatives of a non-terminal, if it was allocated. -/
def get? (g : Grammar) (name : NonTerminal) : Option (List Alternative) :=
  match name.number with
  | 0 => none
  | k + 1 => g.rules[k]?

/-- The first non-terminal, if there is one. -/
def start? (g : Grammar) : Option NonTerminal :=
  if g.isEmpty then none else some ⟨1⟩

/-- All non-terminals in the order of their allocation. -/
def names (g : Grammar) : List NonTerminal :=
  (List.range g.size).map fun k => ⟨k + 1⟩

/-- All non-terminals with their alternatives, in the order of their allocation. -/
def entries (g : Grammar) : List (NonTerminal × List Alternative) :=
  g.rules.toList.zipIdx.map fun (alternatives, k) => (⟨k + 1⟩, alternatives)

/-- The entries are what the names stand for. -/
theorem mem_entries_iff {g : Grammar} {name : NonTerminal} {alternatives : List Alternative} :
    (name, alternatives) ∈ g.entries ↔ g.get? name = some alternatives := by
  obtain ⟨_ | k⟩ := name
  · simp [entries, get?]
  · simp only [entries, get?, List.mem_map, Prod.exists, List.mem_zipIdx_iff_getElem?,
      Array.getElem?_toList, Prod.mk.injEq, NonTerminal.mk.injEq, Nat.add_right_cancel_iff]
    constructor
    · rintro ⟨_, _, hrule, rfl, rfl⟩
      exact hrule
    · intro hrule
      exact ⟨_, _, hrule, rfl, rfl⟩

/-! ## What growing does to the views -/

theorem get?_eq_none_iff (g : Grammar) (name : NonTerminal) :
    g.get? name = none ↔ name.number = 0 ∨ g.size < name.number := by
  obtain ⟨_ | k⟩ := name
  · simp [get?]
  · simp only [get?, size, Array.getElem?_eq_none_iff]
    omega

theorem size_fresh (g : Grammar) : g.fresh.2.size = g.size + 1 := by
  simp [fresh, size]

theorem size_define (g : Grammar) (name : NonTerminal) (alternatives : List Alternative) :
    (g.define name alternatives).size = g.size := by
  obtain ⟨_ | k⟩ := name <;> simp [define, size]

/-- A fresh name has no alternatives, and the alternatives of all other names stay. -/
theorem get?_fresh (g : Grammar) (name : NonTerminal) :
    g.fresh.2.get? name = if name = g.fresh.1 then some [] else g.get? name := by
  obtain ⟨_ | k⟩ := name
  · simp [fresh, get?]
  · simp [fresh, get?, Array.getElem?_push]

/-- Only the alternatives of the defined name change, and only if it was allocated. -/
theorem get?_define (g : Grammar) (defined name : NonTerminal) (alternatives : List Alternative) :
    (g.define defined alternatives).get? name
      = if name = defined then (g.get? defined).map fun _ => alternatives else g.get? name := by
  obtain ⟨_ | d⟩ := defined <;> obtain ⟨_ | k⟩ := name
  · simp [get?]
  · simp [define, get?]
  · simp [get?]
  · by_cases h : k = d
    · subst h
      by_cases hk : k < g.rules.size <;> simp [define, get?, hk]
    · simp [define, get?, h, Ne.symm h]

end Grammar

end PatternGrammar
