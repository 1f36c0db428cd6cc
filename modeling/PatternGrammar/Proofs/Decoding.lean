import Mathlib.Data.List.Basic
import PatternGrammar.Input

set_option autoImplicit false

/-! # The lines of a text and of its bytes

An input is cut into lines as a sequence of bytes, and every line is decoded on its own. As a line
feed and a carriage return are encoded by one byte each, which occurs in the encoding of no other
character, these are the lines of the text that the whole input encodes
(`readPatterns_toUTF8`), and the input encodes a text if each of its lines does
(`readPatterns_of_not_isValidUTF8`). -/

namespace PatternGrammar

namespace Text

/-! ## The bytes of characters -/

/-- The bytes that encode characters. -/
def utf8 (chars : List Char) : List UInt8 :=
  chars.flatMap String.utf8EncodeChar

@[simp] theorem utf8_nil : utf8 [] = [] := rfl

@[simp] theorem utf8_cons (c : Char) (rest : List Char) :
    utf8 (c :: rest) = String.utf8EncodeChar c ++ utf8 rest :=
  List.flatMap_cons

@[simp] theorem utf8_append (first second : List Char) :
    utf8 (first ++ second) = utf8 first ++ utf8 second :=
  List.flatMap_append

/-- A byte below `128` encodes the character with its number, and stands in the encoding of no
    other one. -/
theorem toNat_of_mem_utf8EncodeChar {c : Char} {x : UInt8} (hx : x ∈ String.utf8EncodeChar c)
    (hlt : x.toNat < 128) : c.toNat = x.toNat := by
  have hc : c.toNat = c.val.toNat := rfl
  simp only [String.utf8EncodeChar] at hx
  repeat' split at hx
  all_goals
    -- Every byte of a longer encoding has its highest bit set.
    simp only [List.mem_cons, List.not_mem_nil, or_false] at hx
    rcases hx with rfl | rfl | rfl | rfl <;> rw [UInt8.toNat_ofNat'] at * <;> omega

theorem lineFeed_not_mem_utf8EncodeChar {c : Char} (hc : c ≠ '\n') :
    lineFeed ∉ String.utf8EncodeChar c :=
  fun h => hc (Char.toNat_inj.1 (toNat_of_mem_utf8EncodeChar h (by decide)))

theorem carriageReturn_not_mem_utf8EncodeChar {c : Char} (hc : c ≠ '\r') :
    carriageReturn ∉ String.utf8EncodeChar c :=
  fun h => hc (Char.toNat_inj.1 (toNat_of_mem_utf8EncodeChar h (by decide)))

/-! ## Cutting -/

section Cutting

variable {α : Type} [DecidableEq α] {cr lf : α}

/-- Items other than line feeds belong to the line. -/
theorem linesFrom_append {part : List α} (hpart : lf ∉ part) (line rest : List α) :
    linesFrom cr lf line.reverse (part ++ rest)
      = linesFrom cr lf (line ++ part).reverse rest := by
  induction part generalizing line with
  | nil => rw [List.append_nil, List.nil_append]
  | cons x part ih =>
      rw [List.mem_cons, not_or] at hpart
      rw [List.cons_append, linesFrom, if_neg (Ne.symm hpart.1), ← List.reverse_concat,
        ih hpart.2, List.append_assoc]
      rfl

theorem linesFrom_lineFeed (line rest : List α) :
    linesFrom cr lf line (lf :: rest) = (dropReturn cr line).reverse :: lines cr lf rest :=
  if_pos rfl

theorem dropReturn_concat (line : List α) :
    dropReturn cr (line ++ [cr]).reverse = line.reverse := by
  rw [List.reverse_concat]
  exact if_pos rfl

/-- Only a carriage return at the very end of a line is not counted to it. -/
theorem dropReturn_reverse {line : List α} (h : line.getLast? ≠ some cr) :
    dropReturn cr line.reverse = line.reverse := by
  rw [← List.head?_reverse] at h
  cases hline : line.reverse with
  | nil => rfl
  | cons x before =>
      rw [hline] at h
      exact if_neg fun heq => h (congrArg some heq)

/-- A line is what stands before the first line feed, without a carriage return at its end. -/
theorem lines_append_lineFeed {part : List α} (hpart : lf ∉ part) (rest : List α) :
    lines cr lf (part ++ lf :: rest)
      = (dropReturn cr part.reverse).reverse :: lines cr lf rest := by
  have hscan : lines cr lf (part ++ lf :: rest) = linesFrom cr lf part.reverse (lf :: rest) :=
    linesFrom_append hpart [] (lf :: rest)
  rw [hscan, linesFrom_lineFeed]

/-- The last line may lack its end. -/
theorem lines_eq_singleton {part : List α} (hpart : lf ∉ part) (hsome : part ≠ []) :
    lines cr lf part = [part] := by
  have hscan : lines cr lf (part ++ []) = linesFrom cr lf part.reverse [] :=
    linesFrom_append hpart [] []
  rw [List.append_nil] at hscan
  rw [hscan, linesFrom, if_neg (by simpa using hsome), List.reverse_reverse]

end Cutting

theorem getLast?_utf8_ne {line : List Char} (h : line.getLast? ≠ some '\r') :
    (utf8 line).getLast? ≠ some carriageReturn := by
  obtain rfl | ⟨before, c, rfl⟩ := line.eq_nil_or_concat'
  · exact nofun
  · rw [List.getLast?_concat, Ne, Option.some.injEq] at h
    rw [utf8_append, utf8_cons, utf8_nil, List.append_nil,
      List.getLast?_append_of_ne_nil _ (String.utf8EncodeChar_ne_nil)]
    exact fun heq => carriageReturn_not_mem_utf8EncodeChar h (List.mem_of_getLast? heq)

theorem dropReturn_utf8 (line : List Char) :
    (dropReturn carriageReturn (utf8 line).reverse).reverse
      = utf8 (dropReturn '\r' line.reverse).reverse := by
  by_cases h : line.getLast? = some '\r'
  · obtain ⟨before, rfl⟩ := List.getLast?_eq_some_iff.1 h
    have hbytes : utf8 (before ++ ['\r']) = utf8 before ++ [carriageReturn] := utf8_append ..
    rw [hbytes, dropReturn_concat, dropReturn_concat, List.reverse_reverse, List.reverse_reverse]
  · rw [dropReturn_reverse h, dropReturn_reverse (getLast?_utf8_ne h), List.reverse_reverse,
      List.reverse_reverse]

/-- The lines of the bytes are the bytes of the lines. -/
theorem linesFrom_utf8 (line chars : List Char) :
    linesFrom carriageReturn lineFeed (utf8 line).reverse (utf8 chars)
      = (linesFrom '\r' '\n' line.reverse chars).map utf8 := by
  induction chars generalizing line with
  | nil =>
      cases line with
      | nil => rfl
      | cons c rest => simp [linesFrom, String.utf8EncodeChar_ne_nil]
  | cons c rest ih =>
      by_cases hc : c = '\n'
      · subst hc
        have hbytes : utf8 ('\n' :: rest) = lineFeed :: utf8 rest := utf8_cons ..
        rw [hbytes, linesFrom_lineFeed, linesFrom_lineFeed, dropReturn_utf8, List.map_cons]
        exact congrArg _ (ih [])
      · rw [utf8_cons, linesFrom_append (lineFeed_not_mem_utf8EncodeChar hc), linesFrom,
          if_neg hc, ← List.reverse_concat, ← ih, utf8_append, utf8_cons, utf8_nil, List.append_nil]

theorem lines_utf8 (chars : List Char) :
    lines carriageReturn lineFeed (utf8 chars) = (lines '\r' '\n' chars).map utf8 :=
  linesFrom_utf8 [] chars

/-! ## Bytes that encode a text -/

/-- The bytes encode some characters. -/
def IsUtf8 (bytes : List UInt8) : Prop :=
  ∃ chars, utf8 chars = bytes

theorem IsUtf8.append {first second : List UInt8} (hfirst : IsUtf8 first)
    (hsecond : IsUtf8 second) : IsUtf8 (first ++ second) := by
  obtain ⟨u, rfl⟩ := hfirst
  obtain ⟨v, rfl⟩ := hsecond
  exact ⟨u ++ v, utf8_append u v⟩

theorem isUtf8_carriageReturn : IsUtf8 [carriageReturn] := ⟨['\r'], rfl⟩

theorem isUtf8_lineFeed : IsUtf8 [lineFeed] := ⟨['\n'], rfl⟩

theorem isUtf8_of_dropReturn {line : List UInt8}
    (h : IsUtf8 (dropReturn carriageReturn line.reverse).reverse) : IsUtf8 line := by
  by_cases hline : line.getLast? = some carriageReturn
  · obtain ⟨before, rfl⟩ := List.getLast?_eq_some_iff.1 hline
    rw [dropReturn_concat, List.reverse_reverse] at h
    exact h.append isUtf8_carriageReturn
  · rwa [dropReturn_reverse hline, List.reverse_reverse] at h

/-- A sequence of bytes encodes a text if each of its lines does. -/
theorem isUtf8_of_linesFrom (line items : List UInt8)
    (h : ∀ l ∈ linesFrom carriageReturn lineFeed line.reverse items, IsUtf8 l) :
    IsUtf8 (line ++ items) := by
  induction items generalizing line with
  | nil =>
      cases line with
      | nil => exact ⟨[], rfl⟩
      | cons x rest => simpa [linesFrom] using h
  | cons x rest ih =>
      by_cases hx : x = lineFeed
      · subst hx
        rw [linesFrom_lineFeed, List.forall_mem_cons] at h
        have hrest : IsUtf8 rest := ih [] h.2
        exact (isUtf8_of_dropReturn h.1).append (isUtf8_lineFeed.append hrest)
      · rw [linesFrom, if_neg hx, ← List.reverse_concat] at h
        have hwhole := ih _ h
        rwa [List.append_assoc] at hwhole

theorem mk_utf8 (chars : List Char) :
    (⟨(utf8 chars).toArray⟩ : ByteArray) = (String.ofList chars).toByteArray := by
  rw [String.toByteArray_ofList]
  exact ByteArray.ext List.data_toByteArray.symm

theorem isUtf8_iff {input : ByteArray} : IsUtf8 input.data.toList ↔ input.IsValidUTF8 := by
  constructor
  · rintro ⟨chars, hchars⟩
    have hinput : input = (String.ofList chars).toByteArray := by
      rw [← mk_utf8, hchars, Array.toArray_toList]
    rw [hinput]
    exact String.isValidUTF8 _
  · rintro ⟨chars, rfl⟩
    exact ⟨chars, List.toList_data_toByteArray.symm⟩

theorem toList_toUTF8 (text : String) : text.toUTF8.data.toList = utf8 text.toList := by
  rw [String.toUTF8_eq_toByteArray, ← String.ofList_toList (s := text), ← mk_utf8]
  simp

end Text

/-! ## Reading an input -/

theorem decodeLine_utf8 (chars : List Char) :
    decodeLine (Text.utf8 chars) = .ok (String.ofList chars) := by
  have hvalid := (String.ofList chars).isValidUTF8
  rw [decodeLine, Text.mk_utf8, String.fromUTF8?, dif_pos hvalid]
  rfl

theorem isUtf8_of_decodeLine {bytes : List UInt8} {line : String}
    (h : decodeLine bytes = .ok line) : Text.IsUtf8 bytes := by
  by_cases hvalid : ByteArray.IsValidUTF8 ⟨bytes.toArray⟩
  · exact Text.isUtf8_iff.2 hvalid
  · rw [decodeLine, String.fromUTF8?, dif_neg hvalid] at h
    exact nomatch h

/-- The lines of a text that are not blank. -/
def patternLines (text : String) : List String :=
  ((Text.lines '\r' '\n' text.toList).map String.ofList).filter (! Text.isBlank ·)

theorem mapM_decodeLine_utf8 (lines : List (List Char)) :
    (lines.map Text.utf8).mapM decodeLine = .ok (lines.map String.ofList) := by
  have hdecode : decodeLine ∘ Text.utf8 = fun chars => pure (String.ofList chars) :=
    funext decodeLine_utf8
  rw [List.mapM_map, hdecode]
  exact List.mapM_pure

theorem readPatterns_toUTF8 (text : String) :
    readPatterns text.toUTF8 = .ok (patternLines text) := by
  rw [readPatterns, Text.toList_toUTF8, Text.lines_utf8, mapM_decodeLine_utf8]
  rfl

/-- Decoding all lines succeeds only if each of them encodes a text. -/
theorem isUtf8_of_mapM_decodeLine {lines : List (List UInt8)} {texts : List String}
    (h : lines.mapM decodeLine = .ok texts) : ∀ l ∈ lines, Text.IsUtf8 l := by
  induction lines generalizing texts with
  | nil => exact List.forall_mem_nil _
  | cons l rest ih =>
      rw [List.mapM_cons] at h
      cases hl : decodeLine l with
      | error e => rw [hl] at h; exact nomatch h
      | ok line =>
          cases hrest : rest.mapM decodeLine with
          | error e => rw [hl, hrest] at h; exact nomatch h
          | ok more => exact List.forall_mem_cons.2 ⟨isUtf8_of_decodeLine hl, ih hrest⟩

theorem readPatterns_of_not_isValidUTF8 {input : ByteArray} (h : ¬ input.IsValidUTF8) :
    readPatterns input = .error .invalidEncoding := by
  cases hlines : (Text.lines carriageReturn lineFeed input.data.toList).mapM decodeLine with
  | error e => rw [readPatterns, hlines]; rfl
  | ok texts =>
      have hall := isUtf8_of_mapM_decodeLine hlines
      exact absurd (Text.isUtf8_iff.1 (Text.isUtf8_of_linesFrom [] _ hall)) h

end PatternGrammar
