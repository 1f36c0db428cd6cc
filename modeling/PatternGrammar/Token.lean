set_option autoImplicit false

/-! # Tokens

The notation of patterns has one token per character: seven marks and the characters that stand
for themselves. A further token marks the end of the text, so that every place between two
characters, the last one included, has a token that follows it. -/

namespace PatternGrammar

/-- A unit of a pattern text. -/
inductive Token where
  /-- The mark `(`. -/
  | leftParen
  /-- The mark `)`. -/
  | rightParen
  /-- The mark `|`. -/
  | bar
  /-- The mark `*`. -/
  | star
  /-- The mark `?`. -/
  | question
  /-- The mark `:`. -/
  | colon
  /-- The mark `=`. -/
  | equals
  /-- A character that stands for itself. -/
  | symbol (c : Char)
  /-- The end of the text. -/
  | endOfInput
  deriving DecidableEq

namespace Token

/-- The token that a character is. Beside the seven marks only the ASCII letters and digits belong
    to the notation. -/
def ofChar? : Char → Option Token
  | '(' => some leftParen
  | ')' => some rightParen
  | '|' => some bar
  | '*' => some star
  | '?' => some question
  | ':' => some colon
  | '=' => some equals
  | c => if c.isAlphanum then some (symbol c) else none

/-- The value of a token that is a decimal digit. -/
def digit? : Token → Option Nat
  | symbol c => if c.isDigit then some (c.toNat - '0'.toNat) else none
  | _ => none

/-- A token as error messages name it: the character in single quotes. -/
def name : Token → String
  | leftParen => "'('"
  | rightParen => "')'"
  | bar => "'|'"
  | star => "'*'"
  | question => "'?'"
  | colon => "':'"
  | equals => "'='"
  | symbol c => "'" ++ String.singleton c ++ "'"
  | endOfInput => "end of input"

end Token

end PatternGrammar
