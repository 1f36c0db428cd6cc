import PatternGrammar.Token.Scan

set_option autoImplicit false

/-! # What scanning yields

A text is scanned if all of its characters belong to the notation, and then its tokens are those of
its characters, one by one. No token stands for two characters, so the tokens determine the text. -/

namespace PatternGrammar.Token

/-- The character that a token stands for. -/
def char? : Token → Option Char
  | leftParen => '('
  | rightParen => ')'
  | bar => '|'
  | star => '*'
  | question => '?'
  | colon => ':'
  | equals => '='
  | symbol c => c
  | endOfInput => none

theorem ofChar?_of_isAlphanum {c : Char} (h : c.isAlphanum) : ofChar? c = some (symbol c) := by
  -- None of the seven marks is a letter or a digit.
  unfold ofChar?
  split <;> first | exact absurd h (by decide) | exact if_pos h

theorem ofChar?_of_isDigit {c : Char} (h : c.isDigit) : ofChar? c = some (symbol c) :=
  ofChar?_of_isAlphanum (by simp [Char.isAlphanum, h])

theorem char?_of_ofChar? {c : Char} {token : Token} (h : ofChar? c = some token) :
    token.char? = some c := by
  unfold ofChar? at h
  split at h
  case h_8 =>
    obtain ⟨-, hsymbol⟩ := Option.ite_none_right_eq_some.1 h
    obtain rfl := Option.some.inj hsymbol
    rfl
  all_goals
    obtain rfl := Option.some.inj h
    rfl

theorem isAlphanum_of_ofChar? {c c' : Char} (h : ofChar? c = some (symbol c')) :
    c'.isAlphanum := by
  obtain rfl := Option.some.inj (char?_of_ofChar? h)
  unfold ofChar? at h
  split at h
  case h_8 => exact (Option.ite_none_right_eq_some.1 h).1
  all_goals exact nomatch h

/-! ## The alphabet -/

/-- The characters of the notation: the ASCII letters and digits, and seven marks. -/
def Belongs (c : Char) : Prop :=
  c.isAlphanum ∨ c ∈ ['(', ')', '|', '*', '?', ':', '=']

theorem isSome_ofChar?_iff {c : Char} : (ofChar? c).isSome ↔ Belongs c := by
  constructor
  · intro h
    unfold ofChar? at h
    split at h
    case h_8 =>
      by_cases hc : c.isAlphanum
      · exact .inl hc
      · rw [if_neg hc] at h
        exact nomatch h
    all_goals exact .inr (by decide)
  · rintro (hc | hc)
    · rw [ofChar?_of_isAlphanum hc]
      rfl
    · simp only [List.mem_cons, List.not_mem_nil, or_false] at hc
      rcases hc with rfl | rfl | rfl | rfl | rfl | rfl | rfl <;> rfl

/-! ## The tokens of a text -/

/-- All of the characters belong to the notation. -/
def InNotation (chars : List Char) : Prop :=
  ∀ c ∈ chars, (ofChar? c).isSome

@[simp] theorem inNotation_nil : InNotation [] :=
  List.forall_mem_nil _

@[simp] theorem inNotation_cons {c : Char} {rest : List Char} :
    InNotation (c :: rest) ↔ (ofChar? c).isSome ∧ InNotation rest :=
  List.forall_mem_cons

@[simp] theorem inNotation_append {first second : List Char} :
    InNotation (first ++ second) ↔ InNotation first ∧ InNotation second :=
  List.forall_mem_append

theorem inNotation_iff {chars : List Char} : InNotation chars ↔ ∀ c ∈ chars, Belongs c :=
  forall₂_congr fun _ _ => isSome_ofChar?_iff

/-- The tokens of the characters that have one. -/
def ofChars (chars : List Char) : List Token :=
  chars.filterMap ofChar?

@[simp] theorem ofChars_append (first second : List Char) :
    ofChars (first ++ second) = ofChars first ++ ofChars second :=
  List.filterMap_append

theorem ofChars_cons {c : Char} {token : Token} (h : ofChar? c = some token) (rest : List Char) :
    ofChars (c :: rest) = token :: ofChars rest :=
  List.filterMap_cons_some h

theorem ofChars_captureGroup (body : List Char) :
    ofChars ('(' :: (body ++ [')'])) = leftParen :: (ofChars body ++ [rightParen]) := by
  rw [ofChars_cons rfl, ofChars_append]
  rfl

theorem ofChars_specialGroup {mark : Char} {token : Token} (h : ofChar? mark = some token)
    (body : List Char) :
    ofChars ('(' :: '?' :: mark :: (body ++ [')']))
      = leftParen :: question :: token :: (ofChars body ++ [rightParen]) := by
  rw [ofChars_cons rfl, ofChars_cons rfl, ofChars_cons h, ofChars_append]
  rfl

theorem length_ofChars {chars : List Char} (h : InNotation chars) :
    (ofChars chars).length = chars.length := by
  induction chars with
  | nil => rfl
  | cons c rest ih =>
      obtain ⟨hc, hrest⟩ := inNotation_cons.1 h
      obtain ⟨token, htoken⟩ := Option.isSome_iff_exists.1 hc
      rw [ofChars_cons htoken, List.length_cons, List.length_cons, ih hrest]

theorem count_leftParen_ofChars (chars : List Char) :
    (ofChars chars).count leftParen = chars.count '(' := by
  rw [ofChars, List.count_filterMap, List.count]
  refine List.countP_congr fun c _ => ?_
  rw [beq_iff_eq, beq_iff_eq]
  constructor
  · intro h
    exact (Option.some.inj (char?_of_ofChar? h)).symm
  · rintro rfl
    rfl

theorem isAlphanum_of_mem_ofChars {chars : List Char} {c : Char} (h : symbol c ∈ ofChars chars) :
    c.isAlphanum := by
  obtain ⟨c', -, hc'⟩ := List.mem_filterMap.1 h
  exact isAlphanum_of_ofChar? hc'

theorem filterMap_char?_ofChars {chars : List Char} (h : InNotation chars) :
    (ofChars chars).filterMap char? = chars := by
  induction chars with
  | nil => rfl
  | cons c rest ih =>
      obtain ⟨hc, hrest⟩ := inNotation_cons.1 h
      obtain ⟨token, htoken⟩ := Option.isSome_iff_exists.1 hc
      rw [ofChars_cons htoken, List.filterMap_cons_some (char?_of_ofChar? htoken), ih hrest]

/-- Two texts in the notation with the same tokens are the same. -/
theorem eq_of_ofChars_eq {first second : List Char} (hfirst : InNotation first)
    (hsecond : InNotation second) (h : ofChars first = ofChars second) : first = second := by
  rw [← filterMap_char?_ofChars hfirst, h, filterMap_char?_ofChars hsecond]

theorem endOfInput_not_mem_ofChars (chars : List Char) : endOfInput ∉ ofChars chars := by
  intro h
  obtain ⟨c, -, hc⟩ := List.mem_filterMap.1 h
  exact nomatch char?_of_ofChar? hc

theorem takeWhile_ofChars_append (chars : List Char) {rest : List Token}
    (hrest : rest.headD endOfInput = endOfInput) :
    (ofChars chars ++ rest).takeWhile (· ≠ endOfInput) = ofChars chars := by
  have hall : ∀ token ∈ ofChars chars, decide (token ≠ endOfInput) = true := by
    rintro token htoken
    exact decide_eq_true fun h => endOfInput_not_mem_ofChars chars (h ▸ htoken)
  rw [List.takeWhile_append_of_pos hall]
  cases rest with
  | nil => exact List.append_nil _
  | cons token rest =>
      obtain rfl : token = endOfInput := hrest
      exact List.append_nil _

/-- The tokens of a text are those before the end. -/
theorem ofChars_eq_of_append_eq {first second : List Char} {rest rest' : List Token}
    (h : ofChars first ++ rest = ofChars second ++ rest')
    (hrest : rest.headD endOfInput = endOfInput)
    (hrest' : rest'.headD endOfInput = endOfInput) : ofChars first = ofChars second := by
  rw [← takeWhile_ofChars_append first hrest, h, takeWhile_ofChars_append second hrest']

/-- The token that a text begins with, which for an empty one is the end. -/
def first (chars : List Char) : Token :=
  (chars.head?.bind ofChar?).getD endOfInput

theorem first_cons {c : Char} {token : Token} (h : ofChar? c = some token) (rest : List Char) :
    first (c :: rest) = token :=
  congrArg (Option.getD · endOfInput) h

theorem eq_nil_of_first {chars : List Char} (h : InNotation chars)
    (hfirst : first chars = endOfInput) : chars = [] := by
  cases chars with
  | nil => rfl
  | cons c rest =>
      obtain ⟨token, htoken⟩ := Option.isSome_iff_exists.1 (inNotation_cons.1 h).1
      obtain rfl := (first_cons htoken rest).symm.trans hfirst
      exact nomatch char?_of_ofChar? htoken

theorem exists_cons_of_first {chars : List Char} (h : InNotation chars) {c : Char}
    (hfirst : (first chars).char? = some c) : ∃ rest, chars = c :: rest := by
  cases chars with
  | nil => exact nomatch hfirst
  | cons c' rest =>
      obtain ⟨token, htoken⟩ := Option.isSome_iff_exists.1 (inNotation_cons.1 h).1
      rw [first_cons htoken, char?_of_ofChar? htoken] at hfirst
      exact ⟨rest, congrArg (· :: rest) (Option.some.inj hfirst)⟩

/-- Behind the tokens of a part stand those of the rest of the text. -/
theorem exists_append_of_ofChars {chars front : List Char} {rest : List Token}
    (hchars : InNotation chars) (hfront : InNotation front)
    (h : ofChars chars ++ [endOfInput] = ofChars front ++ rest) :
    ∃ behind, chars = front ++ behind ∧ rest = ofChars behind ++ [endOfInput] := by
  induction front generalizing chars with
  | nil => exact ⟨chars, rfl, h.symm⟩
  | cons c front ih =>
      obtain ⟨hc, hmore⟩ := inNotation_cons.1 hfront
      obtain ⟨token, htoken⟩ := Option.isSome_iff_exists.1 hc
      rw [ofChars_cons htoken] at h
      cases chars with
      | nil =>
          obtain rfl := (List.cons.inj h).1
          exact nomatch char?_of_ofChar? htoken
      | cons c' chars =>
          obtain ⟨hc', hrest⟩ := inNotation_cons.1 hchars
          obtain ⟨token', htoken'⟩ := Option.isSome_iff_exists.1 hc'
          rw [ofChars_cons htoken'] at h
          obtain ⟨rfl, htail⟩ := List.cons.inj h
          obtain rfl : c' = c :=
            Option.some.inj ((char?_of_ofChar? htoken').symm.trans (char?_of_ofChar? htoken))
          obtain ⟨behind, rfl, hbehind⟩ := ih hrest hmore htail
          exact ⟨behind, rfl, hbehind⟩

theorem headD_ofChars_append {chars : List Char} (h : InNotation chars) :
    (ofChars chars ++ [endOfInput]).headD endOfInput = first chars := by
  cases chars with
  | nil => rfl
  | cons c rest =>
      obtain ⟨token, htoken⟩ := Option.isSome_iff_exists.1 (inNotation_cons.1 h).1
      rw [ofChars_cons htoken, first_cons htoken]
      rfl

theorem scanFrom_eq_ok_iff {offset : Nat} {chars : List Char} {tokens : List Token} :
    scanFrom offset chars = .ok tokens
      ↔ InNotation chars ∧ ofChars chars ++ [endOfInput] = tokens := by
  induction chars generalizing offset tokens with
  | nil => simp [scanFrom, ofChars]
  | cons c rest ih =>
      rw [scanFrom, inNotation_cons]
      cases hc : ofChar? c with
      | none => simp
      | some token =>
          rw [ofChars_cons hc]
          cases hrest : scanFrom (offset + 1) rest with
          | error e =>
              constructor
              · intro h
                exact nomatch h
              · rintro ⟨⟨-, hall⟩, -⟩
                exact nomatch hrest.symm.trans (ih.2 ⟨hall, rfl⟩)
          | ok found =>
              obtain ⟨hall, rfl⟩ := ih.1 hrest
              constructor
              · intro h
                exact ⟨⟨rfl, hall⟩, Except.ok.inj h⟩
              · rintro ⟨-, h⟩
                exact congrArg Except.ok h

/-- Scanning fails at the first character outside the notation. -/
theorem scanFrom_eq_error_iff {offset : Nat} {chars : List Char} {e : SyntaxError} :
    scanFrom offset chars = .error e ↔ ∃ before c behind,
      chars = before ++ c :: behind ∧ InNotation before ∧ ofChar? c = none
        ∧ e = .invalidCharacter c (offset + before.length) := by
  induction chars generalizing offset with
  | nil => simp [scanFrom]
  | cons c rest ih =>
      rw [scanFrom]
      cases hc : ofChar? c with
      | none =>
          constructor
          · intro h
            exact ⟨[], c, rest, rfl, inNotation_nil, hc, (Except.error.inj h).symm⟩
          · rintro ⟨_ | ⟨c', before⟩, x, behind, hrest, hbefore, hx, rfl⟩
            · obtain ⟨rfl, -⟩ := List.cons.inj hrest
              rfl
            · obtain ⟨rfl, -⟩ := List.cons.inj hrest
              rw [inNotation_cons, hc] at hbefore
              exact nomatch hbefore.1
      | some token =>
          have hmap : (scanFrom (offset + 1) rest).map (token :: ·) = .error e
              ↔ scanFrom (offset + 1) rest = .error e := by
            cases scanFrom (offset + 1) rest <;> simp [Except.map]
          refine hmap.trans (ih.trans ?_)
          constructor
          · rintro ⟨before, x, behind, rfl, hbefore, hx, rfl⟩
            refine ⟨c :: before, x, behind, rfl, inNotation_cons.2 ⟨by simp [hc], hbefore⟩, hx, ?_⟩
            rw [List.length_cons, Nat.add_assoc, Nat.add_comm 1]
          · rintro ⟨_ | ⟨c', before⟩, x, behind, hrest, hbefore, hx, rfl⟩
            · obtain ⟨rfl, -⟩ := List.cons.inj hrest
              exact nomatch hc.symm.trans hx
            · obtain ⟨rfl, rfl⟩ := List.cons.inj hrest
              refine ⟨before, x, behind, rfl, (inNotation_cons.1 hbefore).2, hx, ?_⟩
              rw [List.length_cons, Nat.add_assoc, Nat.add_comm 1]

end PatternGrammar.Token
