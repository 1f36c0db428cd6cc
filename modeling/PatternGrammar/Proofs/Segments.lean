import PatternGrammar.Proofs.Decoding

set_option autoImplicit false

/-! # What an input holds

Lines are cut out of bytes and decoded one at a time, so it might matter where in an input the bytes
that encode nothing stand. It does not: an input is refused if and only if it encodes no text, and
otherwise its patterns are read off that text (`readPatterns_all_or_nothing`). They are the
`segments` of the text that are not blank, as they stand. -/

namespace PatternGrammar

/-! ## Segments of a text -/

/-- A line without the carriage return that may stand at its end. -/
def withoutReturn (line : List Char) : List Char :=
  if line.getLast? = some '\r' then line.dropLast else line

/-- What stands between the line feeds. All but the last segment are ended by a line feed, and a
    carriage return right before it does not count. -/
def segments (chars : List Char) : List (List Char) :=
  (chars.splitOn '\n').dropLast.map withoutReturn ++ (chars.splitOn '\n').getLast?.toList

theorem segments_eq_singleton {part : List Char} (h : '\n' ∉ part) : segments part = [part] := by
  rw [segments, List.splitOn_eq_singleton h]
  rfl

theorem segments_append_lineFeed {part : List Char} (h : '\n' ∉ part) (rest : List Char) :
    segments (part ++ '\n' :: rest) = withoutReturn part :: segments rest := by
  have hrest : rest.splitOn '\n' ≠ [] := List.splitOn_ne_nil '\n' rest
  rw [segments, List.splitOn_append_cons_self_of_not_mem h, List.dropLast_cons_of_ne_nil hrest,
    List.getLast?_cons_of_ne_nil hrest]
  rfl

theorem dropReturn_eq_withoutReturn (line : List Char) :
    (Text.dropReturn '\r' line.reverse).reverse = withoutReturn line := by
  by_cases h : line.getLast? = some '\r'
  · obtain ⟨before, rfl⟩ := List.getLast?_eq_some_iff.1 h
    rw [Text.dropReturn_concat, List.reverse_reverse, withoutReturn, if_pos h,
      List.dropLast_concat]
  · rw [Text.dropReturn_reverse h, List.reverse_reverse, withoutReturn, if_neg h]

/-! ## Lines and segments -/

variable {keep : List Char → Bool}

/-- The lines that are cut are the segments, except for a last one that is empty. -/
theorem filter_linesFrom (hkeep : keep [] = false) {line : List Char} (hline : '\n' ∉ line)
    (rest : List Char) :
    (Text.linesFrom '\r' '\n' line.reverse rest).filter keep
      = (segments (line ++ rest)).filter keep := by
  induction rest generalizing line with
  | nil =>
      rw [List.append_nil, segments_eq_singleton hline, Text.linesFrom]
      split
      next hempty =>
        obtain rfl : line = [] := by simpa using hempty
        rw [List.filter_cons_of_neg (by simp [hkeep])]
      next => rw [List.reverse_reverse]
  | cons c rest ih =>
      by_cases hc : c = '\n'
      · subst hc
        have hrest : (Text.lines '\r' '\n' rest).filter keep = (segments rest).filter keep :=
          ih List.not_mem_nil
        rw [Text.linesFrom_lineFeed, segments_append_lineFeed hline, dropReturn_eq_withoutReturn,
          List.filter_cons, List.filter_cons, hrest]
      · have hlonger : '\n' ∉ line ++ [c] := by simp [hline, Ne.symm hc]
        rw [Text.linesFrom, if_neg hc, ← List.reverse_concat, ih hlonger, List.append_assoc]
        rfl

theorem filter_lines (hkeep : keep [] = false) (chars : List Char) :
    (Text.lines '\r' '\n' chars).filter keep = (segments chars).filter keep :=
  filter_linesFrom hkeep List.not_mem_nil chars

/-- A line is not blank if it holds some character that is not. -/
theorem not_isBlank_ofList (chars : List Char) :
    (! Text.isBlank (String.ofList chars)) = chars.any (! Text.isBlankChar ·) := by
  rw [Text.isBlank, String.toList_ofList, List.not_all_eq_any_not]

theorem patternLines_eq (text : String) :
    patternLines text = ((segments text.toList).filter fun segment =>
      segment.any (! Text.isBlankChar ·)).map String.ofList := by
  have hkeep : ((! Text.isBlank ·) ∘ String.ofList) = fun segment : List Char =>
      segment.any (! Text.isBlankChar ·) := funext not_isBlank_ofList
  rw [patternLines, List.filter_map, hkeep, filter_lines rfl]

/-! ## Reading an input -/

/-- Reading an input fails exactly if the input encodes no text, whatever its lines are, and else it
    gives the segments of the text that are not blank, in their order. -/
theorem readPatterns_all_or_nothing (input : ByteArray) :
    ((∃ e, readPatterns input = .error e) ↔ ¬ input.IsValidUTF8)
      ∧ ∀ h : input.IsValidUTF8, readPatterns input
        = .ok (((segments (String.fromUTF8 input h).toList).filter fun segment =>
            segment.any (! Text.isBlankChar ·)).map String.ofList) := by
  have hvalid : ∀ h : input.IsValidUTF8,
      readPatterns input = .ok (patternLines (String.fromUTF8 input h)) :=
    fun h => readPatterns_toUTF8 (String.fromUTF8 input h)
  constructor
  · constructor
    · rintro ⟨e, he⟩ h
      exact nomatch he.symm.trans (hvalid h)
    · intro h
      exact ⟨_, readPatterns_of_not_isValidUTF8 h⟩
  · intro h
    rw [hvalid h, patternLines_eq]

/-- Of two carriage returns before a line feed one is kept, and one at the end of the input is kept
    as well. A line with nothing but a no-break space is blank. -/
theorem readPatterns_all_or_nothing_returns :
    readPatterns "a\r\r\n\u00a0\r\n b\r".toUTF8 = .ok ["a\r", " b\r"] := by
  obtain ⟨-, hvalid⟩ := readPatterns_all_or_nothing "a\r\r\n\u00a0\r\n b\r".toUTF8
  exact (hvalid (String.isValidUTF8 _)).trans (by decide)

end PatternGrammar
