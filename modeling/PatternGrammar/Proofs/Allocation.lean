import PatternGrammar.Grammar.Basic

set_option autoImplicit false

/-! # Histories of a grammar

A grammar is made by calls that allocate names and calls that define them, in any order. What it
holds in the end can be read off the list of these calls: the names count the allocations, and the
alternatives of a name are those of its last definition behind its own allocation
(`history_determines_grammar`). A definition that comes before the allocation of its name is lost. -/

namespace PatternGrammar.Grammar

/-- A call that can change a grammar. -/
inductive Call where
  /-- Allocates the next name. -/
  | fresh
  /-- Sets the alternatives of a name. -/
  | define (name : NonTerminal) (alternatives : List Alternative)
  deriving DecidableEq

/-! ## One call -/

namespace Call

/-- The grammar behind a call. -/
def apply (g : Grammar) : Call → Grammar
  | fresh => g.fresh.2
  | define name alternatives => g.define name alternatives

/-- The name that a call returns, if it returns one. -/
def answer? (g : Grammar) : Call → Option NonTerminal
  | fresh => some g.fresh.1
  | define _ _ => none

/-- The alternatives that a call sets for a name, if it is a definition of this name. -/
def definition? (name : NonTerminal) : Call → Option (List Alternative)
  | fresh => none
  | define defined alternatives => if name = defined then some alternatives else none

end Call

theorem size_apply (g : Grammar) (call : Call) :
    (call.apply g).size = g.size + [call].count .fresh := by
  cases call with
  | fresh => exact g.size_fresh
  | define name alternatives => exact g.size_define name alternatives

theorem get?_fresh_fst (g : Grammar) : g.get? g.fresh.1 = none :=
  (g.get?_eq_none_iff _).2 (.inr (Nat.lt_succ_self g.size))

/-- A call leaves a name as it is, unless it is a definition of this name. -/
theorem get?_apply {g : Grammar} {name : NonTerminal} {old : List Alternative}
    (h : g.get? name = some old) (call : Call) :
    (call.apply g).get? name = some ((call.definition? name).getD old) := by
  cases call with
  | fresh =>
      have hne : name ≠ g.fresh.1 := by
        rintro rfl
        exact nomatch h.symm.trans g.get?_fresh_fst
      rw [Call.apply, get?_fresh, if_neg hne]
      exact h
  | define defined alternatives =>
      rw [Call.apply, get?_define, Call.definition?]
      split
      next heq =>
        subst heq
        rw [h]
        rfl
      next => exact h

/-- A definition of a name that was not allocated is lost. -/
theorem define_of_get?_eq_none {g : Grammar} {name : NonTerminal} (h : g.get? name = none)
    (alternatives : List Alternative) : g.define name alternatives = g := by
  obtain ⟨_ | k⟩ := name
  · rfl
  · have hbound : g.rules.size ≤ k := Array.getElem?_eq_none_iff.1 h
    exact congrArg Grammar.mk (Array.setIfInBounds_eq_of_size_le hbound)

/-! ## Many calls -/

/-- The grammar behind a list of calls. -/
def after (g : Grammar) (history : List Call) : Grammar :=
  history.foldl Call.apply g

/-- The names that a list of calls returns, in the order of the calls. -/
def answers (g : Grammar) : List Call → List NonTerminal
  | [] => []
  | call :: rest => (call.answer? g).toList ++ answers (call.apply g) rest

/-- The alternatives of the last definition of a name, if there is one. -/
def lastDefinition? (name : NonTerminal) (history : List Call) : Option (List Alternative) :=
  (history.filterMap (Call.definition? name)).getLast?

theorem after_append (g : Grammar) (first second : List Call) :
    g.after (first ++ second) = (g.after first).after second :=
  List.foldl_append

theorem size_after (g : Grammar) (history : List Call) :
    (g.after history).size = g.size + history.count .fresh := by
  induction history generalizing g with
  | nil => rfl
  | cons call rest ih =>
      rw [after, List.foldl_cons, ← after, ih, size_apply, Nat.add_assoc, ← List.count_append]
      rfl

/-- The names that are returned count on from the size of the grammar. -/
theorem answers_eq (g : Grammar) (history : List Call) :
    g.answers history
      = (List.range' (g.size + 1) (history.count .fresh)).map NonTerminal.mk := by
  induction history generalizing g with
  | nil => rfl
  | cons call rest ih =>
      rw [answers, ih, size_apply]
      cases call with
      | fresh =>
          rw [List.count_singleton_self, List.count_cons_self, List.range'_succ]
          rfl
      | define name alternatives =>
          rw [List.count_cons_of_ne (by simp), List.count_cons_of_ne (by simp)]
          rfl

theorem lastDefinition?_cons (name : NonTerminal) (call : Call) (rest : List Call)
    (old : List Alternative) :
    (lastDefinition? name (call :: rest)).getD old
      = (lastDefinition? name rest).getD ((call.definition? name).getD old) := by
  unfold lastDefinition?
  cases hcall : call.definition? name with
  | none => rw [List.filterMap_cons_none hcall]; rfl
  | some alternatives => rw [List.filterMap_cons_some hcall, List.getLast?_cons]; rfl

/-- What a name stands for behind a list of calls, if it was allocated before them. -/
theorem get?_after {g : Grammar} {name : NonTerminal} {old : List Alternative}
    (h : g.get? name = some old) (history : List Call) :
    (g.after history).get? name = some ((lastDefinition? name history).getD old) := by
  induction history generalizing g old with
  | nil => exact h
  | cons call rest ih =>
      rw [lastDefinition?_cons]
      exact ih (get?_apply h call)

/-- What a name stands for that is allocated between the calls of `before` and `behind`. -/
theorem get?_after_fresh (g : Grammar) (before behind : List Call) :
    (g.after (before ++ .fresh :: behind)).get? (g.after before).fresh.1
      = some ((lastDefinition? (g.after before).fresh.1 behind).getD []) := by
  rw [after_append]
  refine get?_after ?_ behind
  rw [Call.apply, get?_fresh, if_pos rfl]

theorem fresh_after (history : List Call) :
    (empty.after history).fresh.1 = ⟨history.count .fresh + 1⟩ := by
  show NonTerminal.mk ((empty.after history).size + 1) = _
  rw [size_after]
  exact congrArg (fun k => NonTerminal.mk (k + 1)) (Nat.zero_add _)

/-- The allocation of a name is one of the calls, and as many others come before it as its number
    says. -/
theorem exists_allocation {history : List Call} {k : Nat} (h : k < history.count .fresh) :
    ∃ before behind, history = before ++ .fresh :: behind ∧ before.count .fresh = k := by
  induction history generalizing k with
  | nil => exact absurd h (Nat.not_lt_zero k)
  | cons call rest ih =>
      cases call with
      | fresh =>
          cases k with
          | zero => exact ⟨[], rest, rfl, rfl⟩
          | succ k =>
              rw [List.count_cons_self, Nat.add_lt_add_iff_right] at h
              obtain ⟨before, behind, rfl, rfl⟩ := ih h
              exact ⟨.fresh :: before, behind, rfl, List.count_cons_self⟩
      | define name alternatives =>
          rw [List.count_cons_of_ne (by simp)] at h
          obtain ⟨before, behind, rfl, rfl⟩ := ih h
          exact ⟨.define name alternatives :: before, behind, rfl,
            List.count_cons_of_ne (by simp)⟩

/-! ## The views -/

theorem map_fst_entries (g : Grammar) : g.entries.map Prod.fst = g.names := by
  have hplaces : g.rules.toList.zipIdx.map Prod.snd = List.range g.size := by
    rw [List.zipIdx_map_snd, List.range_eq_range']
    rfl
  rw [names, ← hplaces, entries, List.map_map, List.map_map]
  rfl

/-- The entries are the names in their order, each with the alternatives that it stands for. -/
theorem map_some_entries (g : Grammar) :
    (g.entries.map fun entry => (entry.1, some entry.2))
      = g.names.map fun name => (name, g.get? name) := by
  rw [← map_fst_entries, List.map_map]
  refine List.map_congr_left ?_
  rintro ⟨name, alternatives⟩ hentry
  exact congrArg (Prod.mk name) (mem_entries_iff.1 hentry).symm

theorem start?_eq_none_iff (g : Grammar) : g.start? = none ↔ g.size = 0 := by
  simp [start?, isEmpty, size]

theorem start?_eq_some_iff (g : Grammar) : g.start? = some ⟨1⟩ ↔ 0 < g.size := by
  simp [start?, isEmpty, size, Nat.pos_iff_ne_zero]

/-! ## Whole histories -/

theorem size_after_empty (history : List Call) :
    (empty.after history).size = history.count .fresh :=
  (size_after empty history).trans (Nat.zero_add _)

/-- What is in a grammar after any calls. The calls of `fresh` return the names in their order. A
    name stands for something if and only if it was allocated, and this is what it was last defined
    as behind its allocation, or nothing if it was not. To define a name that is not allocated
    changes nothing, and to define another one changes no third. All views list the same names. -/
theorem history_determines_grammar (history : List Call) :
    answers empty history = (List.range (history.count .fresh)).map (fun k => ⟨k + 1⟩)
      ∧ (∀ k, (empty.after history).get? ⟨k⟩ = none ↔ k = 0 ∨ history.count .fresh < k)
      ∧ (∀ k < history.count .fresh, ∃ before behind,
          history = before ++ .fresh :: behind ∧ before.count .fresh = k
            ∧ (empty.after history).get? ⟨k + 1⟩
              = some ((lastDefinition? ⟨k + 1⟩ behind).getD []))
      ∧ (∀ (name : NonTerminal) (alternatives : List Alternative),
          (name.number = 0 ∨ history.count .fresh < name.number →
            (empty.after history).define name alternatives = empty.after history)
          ∧ ∀ other, other ≠ name →
            ((empty.after history).define name alternatives).get? other
              = (empty.after history).get? other)
      ∧ (empty.after history).size = history.count .fresh
      ∧ (empty.after history).names
          = (List.range (history.count .fresh)).map (fun k => ⟨k + 1⟩)
      ∧ ((empty.after history).entries.map fun entry => (entry.1, some entry.2))
          = (empty.after history).names.map (fun name => (name, (empty.after history).get? name))
      ∧ ((empty.after history).start? = some ⟨1⟩ ↔ 0 < history.count .fresh)
      ∧ ((empty.after history).start? = none ↔ history.count .fresh = 0) := by
  have hsize := size_after_empty history
  have hnone (name : NonTerminal) : (empty.after history).get? name = none
      ↔ name.number = 0 ∨ history.count .fresh < name.number := by
    rw [get?_eq_none_iff, hsize]
  refine ⟨?_, fun k => hnone ⟨k⟩, ?_, ?_, hsize, ?_, map_some_entries _, ?_, ?_⟩
  · rw [answers_eq, List.range'_eq_map_range, List.map_map]
    refine List.map_congr_left fun k _ => congrArg NonTerminal.mk ?_
    exact Nat.add_comm 1 k
  · intro k hk
    obtain ⟨before, behind, rfl, rfl⟩ := exists_allocation hk
    refine ⟨before, behind, rfl, rfl, ?_⟩
    rw [← fresh_after]
    exact get?_after_fresh empty before behind
  · intro name alternatives
    refine ⟨fun hmissing => define_of_get?_eq_none ((hnone name).2 hmissing) alternatives, ?_⟩
    intro other hother
    rw [get?_define, if_neg hother]
  · rw [names, hsize]
  · rw [start?_eq_some_iff, hsize]
  · rw [start?_eq_none_iff, hsize]

/-- The first definition comes before the allocation of its name and is lost. -/
example : (empty.after [.define ⟨1⟩ [[.terminal 'a']], .fresh, .define ⟨1⟩ [[.terminal 'b']],
    .fresh, .define ⟨1⟩ [[.epsilon]]]).get? ⟨1⟩ = some [[.epsilon]] := rfl

end PatternGrammar.Grammar
