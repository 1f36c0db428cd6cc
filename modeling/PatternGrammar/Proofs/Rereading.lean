import PatternGrammar.Proofs.Canonical
import PatternGrammar.Proofs.Parsing

set_option autoImplicit false

/-! # Reading the canonical text of any tree

`Pattern.parse_text` says what becomes of the canonical text of a tree whose symbols are letters
and digits, however the tree was built. Two things can keep the text from being read as the normal
form of the tree: a link whose index has more than one digit, of which the reader takes only the
first, and too many captures.

Each pattern stands at up to three kinds of places in a text, one for each of the wider forms. What
has to be shown of them all follows from the one form whose rule writes the outermost node
(`Inherited.everywhere`), so that the inductions below have one case for each kind of node. -/

namespace PatternGrammar

/-! ## The places of a pattern in a text -/

/-- The form whose rule writes the outermost node of a pattern. -/
def Pattern.form : Pattern → Form
  | .alt _ _ => .alternative
  | .concat _ _ => .concatenation
  | .star _ => .iteration
  | _ => .atom

/-- The property goes over from each form to the ones that it is a case of. -/
structure Inherited (P : Form → Pattern → Prop) : Prop where
  item : ∀ p, P .atom p → P .iteration p
  start : ∀ p, P .iteration p → P .concatenation p
  single : ∀ p, P .concatenation p → P .alternative p
  group : ∀ p, P .alternative p → P .atom (.group p)

/-- The property holds of a pattern at every place, with a group around it where the place asks
    for one. -/
structure Everywhere (P : Form → Pattern → Prop) (p : Pattern) : Prop where
  alternative : P .alternative p
  term : P .concatenation p.asTerm
  item : P .iteration p.asItem

theorem Inherited.everywhere {P : Form → Pattern → Prop} (h : Inherited P) {p : Pattern}
    (hp : P p.form p) : Everywhere P p := by
  cases p with
  | alt left right =>
      have hitem := h.item _ (h.group _ hp)
      exact ⟨hp, h.start _ hitem, hitem⟩
  | concat left right =>
      have hsingle := h.single _ hp
      exact ⟨hsingle, hp, h.item _ (h.group _ hsingle)⟩
  | star body =>
      have hstart := h.start _ hp
      exact ⟨h.single _ hstart, hstart, hp⟩
  | symbol | capture | group | link | lookahead =>
      have hitem := h.item _ hp
      have hstart := h.start _ hitem
      exact ⟨h.single _ hstart, hstart, hitem⟩

/-! ## Texts that are derived -/

/-- The derivation is one of the canonical text of `p`, and its pattern is the normal form. -/
structure Derivation.Writes {form : Form} (d : Derivation form) (p : Pattern) : Prop where
  chars : d.chars = p.chars
  captures : d.captures = p.captureCount
  pattern : ∀ opened, d.pattern opened = p.grouped.renumber opened

namespace Pattern

/-- The canonical text of `p` is derived as the form. -/
def IsWritten (form : Form) (p : Pattern) : Prop :=
  ∃ d : Derivation form, d.Writes p

theorem inherited_isWritten : Inherited IsWritten where
  item _ := fun ⟨d, h⟩ => ⟨.item d, h.chars, h.captures, h.pattern⟩
  start _ := fun ⟨d, h⟩ => ⟨.start d, h.chars, h.captures, h.pattern⟩
  single _ := fun ⟨d, h⟩ => ⟨.single d, h.chars, h.captures, h.pattern⟩
  group p := by
    rintro ⟨d, h⟩
    refine ⟨.group d, ?_, h.captures, fun opened => congrArg Pattern.group (h.pattern opened)⟩
    rw [chars_group, Derivation.chars, h.chars]

/-- A tree without long links has a canonical text that is derived. -/
theorem isWritten {p : Pattern} (hsymbols : ∀ c, symbol c ∈ p.nodes → c.isAlphanum)
    (hlinks : ∀ index, link index ∈ p.nodes → index ≤ 9) : Everywhere IsWritten p := by
  induction p with
  | symbol c =>
      have hc : c.isAlphanum := hsymbols c (mem_nodes_self _)
      exact inherited_isWritten.everywhere ⟨.symbol c hc, (chars_symbol c).symm, rfl, fun _ => rfl⟩
  | link index =>
      have hlt : index < 10 := Nat.lt_succ_of_le (hlinks index (mem_nodes_self _))
      have hdigit : index.digitChar.isDigit := by simp [hlt]
      refine inherited_isWritten.everywhere ⟨.link index.digitChar hdigit, ?_, rfl, fun _ => ?_⟩
      · rw [chars_link, Nat.toDigits_of_lt_base hlt]
        rfl
      · exact congrArg Pattern.link (Nat.toNat_digitChar_sub_48_of_lt_ten hlt)
  | star body ih =>
      simp only [nodes, List.mem_cons, reduceCtorEq, false_or] at hsymbols hlinks
      obtain ⟨d, h⟩ := (ih hsymbols hlinks).item
      suffices h : IsWritten .iteration (star body) from inherited_isWritten.everywhere h
      refine ⟨.starred d, ?_, ?_, fun opened => ?_⟩
      · rw [chars_star, Derivation.chars, h.chars]
      · exact h.captures.trans (captureCount_asItem body)
      · rw [grouped, ← grouped_asItem]
        exact congrArg Pattern.star (h.pattern opened)
  | group body ih =>
      simp only [nodes, List.mem_cons, reduceCtorEq, false_or] at hsymbols hlinks
      exact inherited_isWritten.everywhere
        (inherited_isWritten.group body (ih hsymbols hlinks).alternative)
  | lookahead body ih =>
      simp only [nodes, List.mem_cons, reduceCtorEq, false_or] at hsymbols hlinks
      obtain ⟨d, h⟩ := (ih hsymbols hlinks).alternative
      suffices h : IsWritten .atom (lookahead body) from inherited_isWritten.everywhere h
      refine ⟨.lookahead d, ?_, h.captures, fun opened => ?_⟩
      · rw [chars_lookahead, Derivation.chars, h.chars]
      · exact congrArg Pattern.lookahead (h.pattern opened)
  | capture body index ih =>
      simp only [nodes, List.mem_cons, reduceCtorEq, false_or] at hsymbols hlinks
      obtain ⟨d, h⟩ := (ih hsymbols hlinks).alternative
      suffices h : IsWritten .atom (capture body index) from inherited_isWritten.everywhere h
      refine ⟨.capture d, ?_, ?_, fun opened => ?_⟩
      · rw [chars_capture, Derivation.chars, h.chars]
      · exact congrArg (· + 1) h.captures
      · exact congrArg (Pattern.capture · (opened + 1)) (h.pattern (opened + 1))
  | concat left right ihl ihr =>
      simp only [nodes, List.mem_cons, List.mem_append, reduceCtorEq, false_or, or_imp,
        forall_and] at hsymbols hlinks
      obtain ⟨l, hl⟩ := (ihl hsymbols.1 hlinks.1).term
      obtain ⟨r, hr⟩ := (ihr hsymbols.2 hlinks.2).item
      suffices h : IsWritten .concatenation (concat left right) from
        inherited_isWritten.everywhere h
      refine ⟨.juxtapose l r, ?_, ?_, fun opened => ?_⟩
      · rw [chars_concat, Derivation.chars, hl.chars, hr.chars]
      · rw [Derivation.captures, hl.captures, hr.captures, captureCount_asTerm,
          captureCount_asItem, captureCount_concat]
      · rw [Derivation.pattern, hl.pattern, hr.pattern, hl.captures, grouped, renumber,
          captureCount_asTerm, captureCount_asTerm, captureCount_grouped, grouped_asTerm,
          grouped_asItem]
  | alt left right ihl ihr =>
      simp only [nodes, List.mem_cons, List.mem_append, reduceCtorEq, false_or, or_imp,
        forall_and] at hsymbols hlinks
      obtain ⟨l, hl⟩ := (ihl hsymbols.1 hlinks.1).alternative
      obtain ⟨r, hr⟩ := (ihr hsymbols.2 hlinks.2).term
      suffices h : IsWritten .alternative (alt left right) from inherited_isWritten.everywhere h
      refine ⟨.bar l r, ?_, ?_, fun opened => ?_⟩
      · rw [chars_alt, Derivation.chars, hl.chars, hr.chars]
      · rw [Derivation.captures, hl.captures, hr.captures, captureCount_asTerm, captureCount_alt]
      · rw [Derivation.pattern, hl.pattern, hr.pattern, hl.captures, grouped, renumber,
          captureCount_grouped, grouped_asTerm]

/-! ## Texts with a long link -/

/-- The text belongs to the notation and begins as a form does. -/
structure Legible (p : Pattern) : Prop where
  inNotation : Token.InNotation p.chars
  begins : ∃ first rest, Token.ofChars p.chars = first :: rest ∧ first.Begins

theorem Legible.of_paren {p : Pattern} {rest : List Char} (hchars : p.chars = '(' :: rest)
    (hrest : Token.InNotation rest) : p.Legible where
  inNotation := by
    rw [hchars, Token.inNotation_cons]
    exact ⟨rfl, hrest⟩
  begins := ⟨.leftParen, _, by rw [hchars, Token.ofChars_cons rfl], .leftParen⟩

theorem Legible.group (p : Pattern) (h : p.Legible) : (group p).Legible :=
  .of_paren (chars_group p) (by simp [Token.ofChar?, h.inNotation])

theorem legible {p : Pattern} (hsymbols : ∀ c, symbol c ∈ p.nodes → c.isAlphanum) :
    p.Legible := by
  induction p with
  | symbol c =>
      have hc := Token.ofChar?_of_isAlphanum (hsymbols c (mem_nodes_self _))
      refine ⟨?_, .symbol c, [], ?_, .symbol c⟩
      · simp [chars_symbol, hc]
      · rw [chars_symbol, Token.ofChars_cons hc]
        rfl
  | link index =>
      refine .of_paren (chars_link index) ?_
      have hdigits : Token.InNotation (Nat.toDigits 10 index) := by
        intro c hc
        have hdigit := Nat.isDigit_of_mem_toDigits (by decide) (by decide) hc
        rw [Token.ofChar?_of_isDigit hdigit]
        rfl
      simp [Token.ofChar?, hdigits]
  | star body ih =>
      simp only [nodes, List.mem_cons, reduceCtorEq, false_or] at hsymbols
      obtain ⟨hchars, first, rest, htokens, hfirst⟩ :=
        (asOperand_of_group Legible.group (ih hsymbols)).2
      refine ⟨?_, first, rest ++ [.star], ?_, hfirst⟩
      · simp [chars_star, Token.ofChar?, hchars]
      · rw [chars_star, Token.ofChars_append, htokens]
        rfl
  | capture body index ih =>
      simp only [nodes, List.mem_cons, reduceCtorEq, false_or] at hsymbols
      exact .of_paren (chars_capture body index)
        (by simp [Token.ofChar?, (ih hsymbols).inNotation])
  | group body ih =>
      simp only [nodes, List.mem_cons, reduceCtorEq, false_or] at hsymbols
      exact (ih hsymbols).group
  | lookahead body ih =>
      simp only [nodes, List.mem_cons, reduceCtorEq, false_or] at hsymbols
      exact .of_paren (chars_lookahead body) (by simp [Token.ofChar?, (ih hsymbols).inNotation])
  | concat left right ihl ihr =>
      simp only [nodes, List.mem_cons, List.mem_append, reduceCtorEq, false_or, or_imp,
        forall_and] at hsymbols
      obtain ⟨hleft, first, rest, htokens, hfirst⟩ :=
        (asOperand_of_group Legible.group (ihl hsymbols.1)).1
      have hright := (asOperand_of_group Legible.group (ihr hsymbols.2)).2
      refine ⟨?_, first, rest ++ Token.ofChars right.asItem.chars, ?_, hfirst⟩
      · simp [chars_concat, hleft, hright.inNotation]
      · rw [chars_concat, Token.ofChars_append, htokens]
        rfl
  | alt left right ihl ihr =>
      simp only [nodes, List.mem_cons, List.mem_append, reduceCtorEq, false_or, or_imp,
        forall_and] at hsymbols
      obtain ⟨hleft, first, rest, htokens, hfirst⟩ := ihl hsymbols.1
      have hright := (asOperand_of_group Legible.group (ihr hsymbols.2)).1
      refine ⟨?_, first, rest ++ Token.ofChars ('|' :: right.asTerm.chars), ?_, hfirst⟩
      · simp [chars_alt, Token.ofChar?, hleft, hright.inNotation]
      · rw [chars_alt, Token.ofChars_append, htokens]
        rfl

/-- The first link whose index has more than one digit, with its place. -/
def longLink? (p : Pattern) (offset : Nat) : Option (Nat × Nat) :=
  (p.linkSites offset).find? (10 ≤ ·.2)

/-- The text of `p`, at any place and whatever follows on it, is refused as the form at the second
    digit of its first long link. -/
def IsRefused (form : Form) (p : Pattern) : Prop :=
  ∀ (r : Reader) (rest : List Token) (place index : Nat) (digit : Char),
    r.rest = Token.ofChars p.chars ++ rest → p.longLink? r.offset = some (place, index) →
      (Nat.toDigits 10 index)[1]? = some digit →
        r.read form = .error (.expectedToken ')' (.symbol digit) (place + 3))

theorem inherited_isRefused : Inherited IsRefused where
  item p h := by
    intro r rest place index digit hrest hlink hdigit
    have hatom : r.atom = _ := h r rest place index digit hrest hlink hdigit
    rw [Reader.read, Reader.iteration_eq, hatom]
    rfl
  start p h := by
    intro r rest place index digit hrest hlink hdigit
    have hiteration : r.iteration = _ := h r rest place index digit hrest hlink hdigit
    rw [Reader.read, Reader.concatenation_eq, hiteration]
    rfl
  single p h := by
    intro r rest place index digit hrest hlink hdigit
    have hconcatenation : r.concatenation = _ := h r rest place index digit hrest hlink hdigit
    rw [Reader.read, Reader.alternative_eq, hconcatenation]
    rfl
  group p h := by
    intro r rest place index digit hrest hlink hdigit
    rw [chars_group, Token.ofChars_specialGroup rfl] at hrest
    simp only [List.cons_append, List.append_assoc] at hrest
    have hinner : (r.skip 3).rest = Token.ofChars p.chars ++ _ := congrArg (List.drop 3) hrest
    have hbody : (r.skip 3).alternative = _ := h _ _ place index digit hinner hlink hdigit
    rw [Reader.read, Reader.atom_group hrest, hbody]
    rfl

theorem longLink?_star (body : Pattern) (offset : Nat) :
    (star body).longLink? offset = body.asItem.longLink? offset :=
  congrArg (List.find? _) (linkSites_star body offset)

theorem longLink?_concat (left right : Pattern) (offset : Nat) :
    (concat left right).longLink? offset = (left.asTerm.longLink? offset).or
      (right.asItem.longLink? (offset + left.asTerm.chars.length)) := by
  rw [longLink?, linkSites_concat, List.find?_append]
  rfl

theorem longLink?_alt (left right : Pattern) (offset : Nat) :
    (alt left right).longLink? offset = (left.longLink? offset).or
      (right.asTerm.longLink? (offset + left.chars.length + 1)) := by
  rw [longLink?, linkSites_alt, List.find?_append]
  rfl

theorem longLink?_asTerm (p : Pattern) (offset : Nat) :
    p.asTerm.longLink? offset = p.longLink? (offset + p.leadLength 1) :=
  congrArg (List.find? _) (p.linkSites_asTerm offset)

theorem le_nine_of_longLink?_eq_none {p : Pattern} {offset : Nat} (h : p.longLink? offset = none) :
    ∀ index, link index ∈ p.nodes → index ≤ 9 := by
  intro index hmem
  rw [← mem_links_iff, ← map_snd_linkSites p offset] at hmem
  obtain ⟨site, hsite, rfl⟩ := List.mem_map.1 hmem
  have hnot := List.find?_eq_none.1 h site hsite
  simp only [decide_eq_true_eq] at hnot
  omega

theorem isRefused_link (index : Nat) : IsRefused .atom (link index) := by
  intro r rest place index' digit hrest hlink hdigit
  have hsite := List.mem_of_find?_eq_some hlink
  obtain ⟨rfl, rfl⟩ := Prod.mk.inj (List.mem_singleton.1 hsite)
  have hdigits {c : Char} (hc : c ∈ Nat.toDigits 10 index') : c.isDigit :=
    Nat.isDigit_of_mem_toDigits (by decide) (by decide) hc
  rw [chars_link] at hrest
  match hmatch : Nat.toDigits 10 index' with
  | [] | [_] => simp [hmatch] at hdigit
  | first :: second :: more =>
      rw [hmatch] at hdigit hrest hdigits
      obtain rfl : second = digit := by simpa using hdigit
      have hfirst : first.isDigit := hdigits (by simp)
      have hsecond : second.isDigit := hdigits (by simp)
      simp only [List.cons_append] at hrest
      rw [Token.ofChars_cons rfl, Token.ofChars_cons rfl,
        Token.ofChars_cons (Token.ofChar?_of_isDigit hfirst),
        Token.ofChars_cons (Token.ofChar?_of_isDigit hsecond)] at hrest
      have hcurrent : (r.skip 3).current = .symbol second := by
        simp [Reader.skip, Reader.current, hrest]
      rw [Reader.read, Reader.atom_link hrest (if_pos hfirst), Reading.close,
        if_neg (by rw [hcurrent]; simp), hcurrent]
      rfl

theorem isRefused_star {body : Pattern} (hbody : IsRefused .iteration body.asItem) :
    IsRefused .iteration (star body) := by
  intro r rest place index digit hrest hlink hdigit
  rw [chars_star, Token.ofChars_append, List.append_assoc] at hrest
  rw [longLink?_star] at hlink
  exact hbody r _ place index digit hrest hlink hdigit

theorem isRefused_capture {body : Pattern} (hlegible : body.Legible)
    (hbody : IsRefused .alternative body) (other : Nat) : IsRefused .atom (capture body other) := by
  intro r rest place index digit hrest hlink hdigit
  rw [chars_capture, Token.ofChars_captureGroup, List.cons_append, List.append_assoc] at hrest
  have hinner : r.openCapture.rest = Token.ofChars body.chars ++ _ := congrArg (List.drop 1) hrest
  have hread : r.openCapture.alternative = _ := hbody _ _ place index digit hinner hlink hdigit
  -- No text begins with a question mark, so the parenthesis opens a capture.
  have hbegins : r.openCapture.current.Begins := by
    obtain ⟨-, first, behind, htokens, hfirst⟩ := hlegible
    simpa [Reader.current, hinner, htokens] using hfirst
  rw [Reader.read, Reader.atom_capture hrest hbegins.ne_question, hread]
  rfl

theorem isRefused_lookahead {body : Pattern} (hbody : IsRefused .alternative body) :
    IsRefused .atom (lookahead body) := by
  intro r rest place index digit hrest hlink hdigit
  rw [chars_lookahead, Token.ofChars_specialGroup rfl] at hrest
  simp only [List.cons_append, List.append_assoc] at hrest
  have hinner : (r.skip 3).rest = Token.ofChars body.chars ++ _ := congrArg (List.drop 3) hrest
  have hread : (r.skip 3).alternative = _ := hbody _ _ place index digit hinner hlink hdigit
  rw [Reader.read, Reader.atom_lookahead hrest, hread]
  rfl

/-- Either the left operand is refused, or it has no long link, is read, and the right one is
    refused. -/
theorem isRefused_concat {left right : Pattern} (hleft : IsRefused .concatenation left.asTerm)
    (hwritten : ∀ offset, left.asTerm.longLink? offset = none →
      IsWritten .concatenation left.asTerm)
    (hlegible : right.asItem.Legible) (hright : IsRefused .iteration right.asItem) :
    IsRefused .concatenation (concat left right) := by
  intro r rest place index digit hrest hlink hdigit
  rw [chars_concat, Token.ofChars_append, List.append_assoc] at hrest
  rw [longLink?_concat] at hlink
  cases hfirst : left.asTerm.longLink? r.offset with
  | some site =>
      rw [hfirst] at hlink
      exact hleft r _ place index digit hrest (hfirst.trans hlink) hdigit
  | none =>
      rw [hfirst, Option.none_or] at hlink
      obtain ⟨d, hd⟩ := hwritten r.offset hfirst
      have h : r.rest = d.tokens ++ (Token.ofChars right.asItem.chars ++ rest) := by
        rw [hrest, Derivation.tokens, hd.chars]
      have hoffset : (d.reading h).next.offset = r.offset + left.asTerm.chars.length := by
        rw [← hd.chars, ← Token.length_ofChars d.inNotation_chars]
        rfl
      have hread : (d.reading h).next.iteration = _ :=
        hright _ rest place index digit rfl (by rw [hoffset, hlink]) hdigit
      have hbegins : (d.reading h).next.current.Begins := by
        obtain ⟨-, first, behind, htokens, hfirst⟩ := hlegible
        simpa [Derivation.reading, Reader.current, htokens] using hfirst
      rw [d.isRead r _ h hbegins.ne_star, Reader.resume,
        Reader.moreIterations_go (Reader.not_stops_of_begins hbegins), hread]
      rfl

theorem isRefused_alt {left right : Pattern} (hleft : IsRefused .alternative left)
    (hwritten : ∀ offset, left.longLink? offset = none → IsWritten .alternative left)
    (hright : IsRefused .concatenation right.asTerm) : IsRefused .alternative (alt left right) := by
  intro r rest place index digit hrest hlink hdigit
  rw [chars_alt, Token.ofChars_append, Token.ofChars_cons rfl, List.append_assoc] at hrest
  rw [longLink?_alt] at hlink
  cases hfirst : left.longLink? r.offset with
  | some site =>
      rw [hfirst] at hlink
      exact hleft r _ place index digit hrest (hfirst.trans hlink) hdigit
  | none =>
      rw [hfirst, Option.none_or] at hlink
      obtain ⟨d, hd⟩ := hwritten r.offset hfirst
      have h : r.rest = d.tokens ++ (.bar :: (Token.ofChars right.asTerm.chars ++ rest)) := by
        rw [hrest, Derivation.tokens, hd.chars]
        rfl
      have hoffset : ((d.reading h).next.skip 1).offset = r.offset + left.chars.length + 1 := by
        rw [← hd.chars, ← Token.length_ofChars d.inNotation_chars]
        rfl
      have hread : ((d.reading h).next.skip 1).concatenation = _ :=
        hright _ rest place index digit rfl (by rw [hoffset, hlink]) hdigit
      rw [d.isRead r _ h (.inl rfl), Reader.resume, Reader.moreAlternatives_bar rfl, hread]
      rfl

/-- A long link keeps the text of a tree from being read, wherever the text stands. -/
theorem isRefused {p : Pattern} (hsymbols : ∀ c, symbol c ∈ p.nodes → c.isAlphanum) :
    Everywhere IsRefused p := by
  induction p with
  | symbol c =>
      suffices h : IsRefused .atom (symbol c) from inherited_isRefused.everywhere h
      intro r rest place index digit hrest hlink
      exact nomatch hlink
  | link index => exact inherited_isRefused.everywhere (isRefused_link index)
  | star body ih =>
      simp only [nodes, List.mem_cons, reduceCtorEq, false_or] at hsymbols
      exact inherited_isRefused.everywhere (isRefused_star (ih hsymbols).item)
  | capture body index ih =>
      simp only [nodes, List.mem_cons, reduceCtorEq, false_or] at hsymbols
      exact inherited_isRefused.everywhere
        (isRefused_capture (legible hsymbols) (ih hsymbols).alternative index)
  | group body ih =>
      simp only [nodes, List.mem_cons, reduceCtorEq, false_or] at hsymbols
      exact inherited_isRefused.everywhere
        (inherited_isRefused.group body (ih hsymbols).alternative)
  | lookahead body ih =>
      simp only [nodes, List.mem_cons, reduceCtorEq, false_or] at hsymbols
      exact inherited_isRefused.everywhere (isRefused_lookahead (ih hsymbols).alternative)
  | concat left right ihl ihr =>
      simp only [nodes, List.mem_cons, List.mem_append, reduceCtorEq, false_or, or_imp,
        forall_and] at hsymbols
      have hright := (asOperand_of_group Legible.group (legible hsymbols.2)).2
      refine inherited_isRefused.everywhere
        (isRefused_concat (ihl hsymbols.1).term ?_ hright (ihr hsymbols.2).item)
      intro offset hnone
      rw [longLink?_asTerm] at hnone
      exact (isWritten hsymbols.1 (le_nine_of_longLink?_eq_none hnone)).term
  | alt left right ihl ihr =>
      simp only [nodes, List.mem_cons, List.mem_append, reduceCtorEq, false_or, or_imp,
        forall_and] at hsymbols
      refine inherited_isRefused.everywhere
        (isRefused_alt (ihl hsymbols.1).alternative ?_ (ihr hsymbols.2).term)
      intro offset hnone
      exact (isWritten hsymbols.1 (le_nine_of_longLink?_eq_none hnone)).alternative

/-! ## Reading the whole text -/

theorem parse_of_isWritten {p : Pattern} (h : IsWritten .alternative p) :
    parse p.text = if 9 < p.captureCount then .error (.tooManyCaptures p.captureCount)
      else .ok p.normal := by
  obtain ⟨d, hd⟩ := h
  rw [parse_of_derivation hd.chars, hd.captures, hd.pattern]
  rfl

theorem parse_of_isRefused {p : Pattern} (hlegible : p.Legible) (h : IsRefused .alternative p)
    {place index : Nat} {digit : Char} (hlink : p.longLink? 0 = some (place, index))
    (hdigit : (Nat.toDigits 10 index)[1]? = some digit) :
    parse p.text = .error (.expectedToken ')' (.symbol digit) (place + 3)) := by
  have hscan : Token.scan p.text = .ok (Token.ofChars p.chars ++ [.endOfInput]) :=
    Token.scanFrom_eq_ok_iff.2 ⟨hlegible.inNotation, rfl⟩
  have hread : Reader.alternative ⟨Token.ofChars p.chars ++ [.endOfInput], 0, 0⟩ = _ :=
    h ⟨_, 0, 0⟩ _ place index digit rfl hlink hdigit
  rw [parse_eq_bind, hscan, Except.bind, hread]
  rfl

theorem exists_second_digit {index : Nat} (h : 10 ≤ index) :
    ∃ digit, (Nat.toDigits 10 index)[1]? = some digit := by
  have hlength : ¬ (Nat.toDigits 10 index).length ≤ 1 := by
    rw [Nat.length_toDigits_le_iff (by decide) (by decide)]
    omega
  exact ⟨_, List.getElem?_eq_getElem (Nat.lt_of_not_le hlength)⟩

/-- What becomes of the canonical text of a tree whose symbols are letters and digits. Without long
    links and with at most nine captures it is read as the normal form of the tree. With more
    captures it is refused for their number, and with a long link it is refused at the second digit
    of the first one, three characters behind the place where the text of that link begins. -/
theorem parse_text {p : Pattern} (hsymbols : ∀ c, symbol c ∈ p.nodes → c.isAlphanum) :
    ((∀ index, link index ∈ p.nodes → index ≤ 9) → p.captureCount ≤ 9 →
        parse p.text = .ok p.normal)
      ∧ ((∀ index, link index ∈ p.nodes → index ≤ 9) → 9 < p.captureCount →
        parse p.text = .error (.tooManyCaptures p.captureCount))
      ∧ ((∃ index, link index ∈ p.nodes ∧ 10 ≤ index) → ∃ before index behind digit,
        p.chars = before ++ ((link index).chars ++ behind)
          ∧ (p.linkSites 0).find? (10 ≤ ·.2) = some (before.length, index)
          ∧ (Nat.toDigits 10 index)[1]? = some digit
          ∧ parse p.text = .error (.expectedToken ')' (.symbol digit) (before.length + 3))) := by
  refine ⟨?_, ?_, ?_⟩
  · intro hlinks hcaptures
    rw [parse_of_isWritten (isWritten hsymbols hlinks).alternative,
      if_neg (Nat.not_lt.2 hcaptures)]
  · intro hlinks hcaptures
    rw [parse_of_isWritten (isWritten hsymbols hlinks).alternative, if_pos hcaptures]
  · rintro ⟨other, hother, hlong⟩
    cases hlink : p.longLink? 0 with
    | none =>
        have hle := le_nine_of_longLink?_eq_none hlink other hother
        omega
    | some site =>
        obtain ⟨place, index⟩ := site
        have hindex : 10 ≤ index := by simpa using List.find?_some hlink
        obtain ⟨digit, hdigit⟩ := exists_second_digit hindex
        obtain ⟨before, behind, hchars, hplace⟩ :=
          p.sitesHold 0 place index (List.mem_of_find?_eq_some hlink)
        obtain rfl : place = before.length := hplace.trans (Nat.zero_add _)
        exact ⟨before, index, behind, digit, hchars, hlink, hdigit,
          parse_of_isRefused (legible hsymbols) (isRefused hsymbols).alternative hlink hdigit⟩

/-- The text of the first tree has two groups that the tree does not have. The second tree has ten
    captures, and the last one has a link with three digits behind a star. -/
theorem parse_text_examples :
    parse (star (concat (capture (symbol 'a') 7) (alt (symbol 'b') (link 1)))).text
        = .ok (star (group (concat (capture (symbol 'a') 1) (group (alt (symbol 'b') (link 1))))))
      ∧ parse (Nat.repeat (capture · 0) 10 (symbol 'a')).text = .error (.tooManyCaptures 10)
      ∧ parse (concat (star (symbol 'a')) (link 123)).text
        = .error (.expectedToken ')' (.symbol '2') 5) := by
  refine ⟨?_, ?_, ?_⟩
  · refine (parse_text ?_).1 ?_ ?_
    · simp [nodes]
    · simp [nodes]
    · decide
  · refine (parse_text ?_).2.1 ?_ ?_
    · simp [nodes, Nat.repeat]
    · simp [nodes, Nat.repeat]
    · decide
  · obtain ⟨before, index, behind, digit, hchars, hsite, hdigit, hparse⟩ :=
      (parse_text (p := concat (star (symbol 'a')) (link 123)) (by simp [nodes])).2.2
        ⟨123, by simp [nodes], by decide⟩
    obtain ⟨hplace, rfl⟩ := Prod.mk.inj (Option.some.inj hsite)
    rw [hparse, ← hplace, ← Option.some.inj hdigit]
    rfl

end Pattern

end PatternGrammar
