import PatternGrammar.SyntaxError

set_option autoImplicit false

/-! # Scanning

A text becomes its list of tokens, closed by `Token.endOfInput`; the token at an offset is the
token of the character at that offset. The first character outside the notation is an error,
wherever it stands. -/

namespace PatternGrammar.Token

/-- The tokens of `chars`, whose first character stands at `offset`. -/
def scanFrom (offset : Nat) : List Char → Except SyntaxError (List Token)
  | [] => .ok [endOfInput]
  | c :: rest =>
      match ofChar? c with
      | some token => (scanFrom (offset + 1) rest).map (token :: ·)
      | none => .error (.invalidCharacter c offset)

/-- The tokens of a text. -/
def scan (text : String) : Except SyntaxError (List Token) :=
  scanFrom 0 text.toList

end PatternGrammar.Token
