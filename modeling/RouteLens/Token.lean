import RouteLens.Tree.Expr

/-!
# Tokens

The words of a source text.  Line ends that finish a statement and changes of indentation are
tokens too.
-/

namespace RouteLens

/-- A quoted literal before its escapes are read.  `bodyStart` is the place of its first character
after the opening quotes. -/
structure TextPiece where
  isBytes : Bool
  isRaw : Bool
  isFormatted : Bool
  marked : Bool
  body : List Char
  bodyStart : Position

/-- The value of a number literal. -/
inductive Numeral where
  | int (n : Nat)
  | float (x : Binary64)
  | imaginary (x : Binary64)

namespace Numeral

/-- The constant that a number literal stands for. -/
def toConstant : Numeral → Constant
  | .int n => .int n
  | .float x => .float x
  | .imaginary x => .imaginary x

end Numeral

/-- A word of a source text. -/
inductive Token where
  | name (id : String)
  | keyword (word : String)
  | number (value : Numeral)
  | text (piece : TextPiece)
  | op (symbol : String)
  | newline
  | indent
  | dedent
  | stop

/-- A token and where it stands. -/
structure Lexeme where
  token : Token
  span : Span

/-- The words that cannot be names. -/
def reservedWords : List String :=
  ["False", "None", "True", "and", "as", "assert", "async", "await", "break", "class", "continue",
   "def", "del", "elif", "else", "except", "finally", "for", "from", "global", "if", "import",
   "in", "is", "lambda", "nonlocal", "not", "or", "pass", "raise", "return", "try", "while",
   "with", "yield"]

end RouteLens
