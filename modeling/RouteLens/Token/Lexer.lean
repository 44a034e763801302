import RouteLens.Text.Compatibility
import RouteLens.Text.Identifier
import RouteLens.Text.Lines
import RouteLens.Token.Number

/-!
# Reading tokens

`Token.scan` cuts a source text into tokens.  Blank lines and comments leave no token.  Indentation
is measured twice, with tabs of eight columns and of one, and both measures have to agree on every
comparison; inside brackets neither line ends nor indentation count.
-/

namespace RouteLens

/-- A place in a text and the characters from there on. -/
structure Cursor where
  rest : List Char
  pos : Position

namespace Cursor

/-- The place after a character. -/
def stepPosition (p : Position) (c : Char) : Position :=
  if c == '\n' then ⟨p.line + 1, 0⟩ else ⟨p.line, p.column + c.utf8Size⟩

/-- Passes over one character. -/
def next (k : Cursor) : Cursor :=
  match k.rest with
  | [] => k
  | c :: cs => ⟨cs, stepPosition k.pos c⟩

/-- Passes over `n` characters. -/
def skip (k : Cursor) : Nat → Cursor
  | 0 => k
  | n + 1 => (skip k n).next

/-- Moves to a later point of the same text. -/
def moveTo (k : Cursor) (rest : List Char) : Cursor :=
  k.skip (k.rest.length - rest.length)

end Cursor

/-- The indentation of a line, with tabs of eight columns and with tabs of one. -/
structure Indent where
  wide : Nat
  narrow : Nat

namespace Indent

/-- No indentation. -/
def zero : Indent := ⟨0, 0⟩

end Indent

/-- What the lexer remembers between tokens: the open indentations, innermost first, the open
brackets, whether a line starts here, and the tokens read so far. -/
structure LexState where
  indents : List Indent
  brackets : List Char
  atLineStart : Bool
  tokens : Array Lexeme

namespace LexState

/-- Appends a token. -/
def emit (s : LexState) (token : Token) (start stop : Position) : LexState :=
  { s with tokens := s.tokens.push ⟨token, ⟨start, stop⟩⟩ }

/-- Appends a token that was read from one cursor to another. -/
def accept (s : LexState) (k : Cursor) : Token × Cursor → LexState × Cursor
  | (token, after) => (s.emit token k.pos after.pos, after)

end LexState

namespace Lexer

/-- The deepest nesting of brackets. -/
def maxBrackets : Nat := 200

/-- The deepest nesting of indentation. -/
def maxIndents : Nat := 100

/-- Measures the blanks at the start of a line.  A backslash continues the line; the indentation is
then the one before the first backslash that follows blanks. -/
def lineIndent (fixed : Option Nat) (i : Indent) (pos : Position) :
    List Char → Option (Indent × Cursor)
  | ' ' :: cs => lineIndent fixed ⟨i.wide + 1, i.narrow + 1⟩ (Cursor.stepPosition pos ' ') cs
  | '\t' :: cs =>
    lineIndent fixed ⟨(i.wide / 8 + 1) * 8, i.narrow + 1⟩ (Cursor.stepPosition pos '\t') cs
  | '\x0c' :: cs => lineIndent fixed .zero (Cursor.stepPosition pos '\x0c') cs
  | '\\' :: '\n' :: c :: cs =>
    let fixed := match fixed with
      | some (n + 1) => some (n + 1)
      | _ => some i.wide
    lineIndent fixed i ⟨pos.line + 1, 0⟩ (c :: cs)
  | '\\' :: _ => none
  | cs =>
    let i := match fixed with
      | some (n + 1) => ⟨n + 1, n + 1⟩
      | _ => i
    some (i, ⟨cs, pos⟩)

/-- Closes indentations that are deeper than the new one. -/
def closeIndents (wide : Nat) (pos : Position) : List Indent → Array Lexeme →
    List Indent × Array Lexeme
  | i :: j :: rest, tokens =>
    if wide < i.wide then closeIndents wide pos (j :: rest) (tokens.push ⟨.dedent, ⟨pos, pos⟩⟩)
    else (i :: j :: rest, tokens)
  | rest, tokens => (rest, tokens)

/-- Compares the indentation of a line with the open ones. -/
def indentLine (s : LexState) (i : Indent) (pos : Position) : Option LexState :=
  match s.indents with
  | [] => none
  | top :: _ =>
    if i.wide = top.wide then
      if i.narrow = top.narrow then some s else none
    else if top.wide < i.wide then
      if maxIndents ≤ s.indents.length || i.narrow ≤ top.narrow then none
      else some { s.emit .indent pos pos with indents := i :: s.indents }
    else
      let (indents, tokens) := closeIndents i.wide pos s.indents s.tokens
      match indents with
      | [] => none
      | top :: _ =>
        if i.wide = top.wide ∧ i.narrow = top.narrow then some { s with indents, tokens } else none

/-- The part of a quoted literal up to its closing quotes, in reverse, and the cursor after them. -/
def scanBody (quote : Char) (triple : Bool) (acc : List Char) (pos : Position) :
    List Char → Option (List Char × Cursor)
  | [] => none
  | '\\' :: cs =>
    match cs with
    | [] => none
    | c :: cs =>
      scanBody quote triple (c :: '\\' :: acc)
        (Cursor.stepPosition (Cursor.stepPosition pos '\\') c) cs
  | c :: cs =>
    if c == quote && !triple then some (acc, ⟨cs, Cursor.stepPosition pos c⟩)
    else if c == quote && triple && [quote, quote].isPrefixOf cs then
      some (acc, ⟨cs.drop 2, ⟨pos.line, pos.column + 3⟩⟩)
    else if c == '\n' && !triple then none
    else scanBody quote triple (c :: acc) (Cursor.stepPosition pos c) cs

/-- The prefixes that may stand before a quote. -/
def textMarks : List String :=
  ["", "b", "r", "u", "f", "br", "rb", "fr", "rf"]

/-- Reads a quoted literal; the cursor stands at the opening quote. -/
def scanText (mark : List Char) (quote : Char) (k : Cursor) : Option (Token × Cursor) := do
  let triple := [quote, quote, quote].isPrefixOf k.rest
  let k := k.skip (if triple then 3 else 1)
  let (body, after) ← scanBody quote triple [] k.pos k.rest
  let lower := mark.map Char.toLower
  return (.text
    { isBytes := lower.contains 'b'
      isRaw := lower.contains 'r'
      isFormatted := lower.contains 'f'
      marked := mark.head? == some 'u'
      body := body.reverse
      bodyStart := k.pos }, after)

/-- The operators of three, two and one characters, longer ones first. -/
def operators : List String :=
  ["**=", "//=", ">>=", "<<=", "...",
   "!=", "%=", "&=", "**", "*=", "+=", "-=", "->", "//", "/=", "<<", "<=", "==", ">=", ">>", "@=",
   "^=", "|=", ":=",
   "%", "&", "(", ")", "*", "+", ",", "-", ".", "/", ":", ";", "<", "=", ">", "@", "[", "]", "^",
   "\x7b", "|", "\x7d", "~"]

/-- The opening bracket that a closing one belongs to. -/
def opening? : Char → Option Char
  | ')' => some '('
  | ']' => some '['
  | '\x7d' => some '\x7b'
  | _ => none

/-- Keeps track of the open brackets; `none` for a bracket that does not fit. -/
def trackBracket (open' : List Char) (symbol : String) : Option (List Char) :=
  match symbol.toList with
  | [c] =>
    if c == '(' || c == '[' || c == '\x7b' then
      if maxBrackets ≤ open'.length then none else some (c :: open')
    else
      match opening? c with
      | none => some open'
      | some o =>
        match open' with
        | [] => none
        | top :: rest => if top == o then some rest else none
  | _ => some open'

/-- Reads a number. -/
def scanNumber (k : Cursor) : Option (Token × Cursor) := do
  let (value, rest) ← NumberLiteral.scan k.rest
  return (.number value, k.moveTo rest)

/-- The token of a word. -/
def wordToken? (word : List Char) : Option Token :=
  let id := String.ofList word
  if !Text.isName word then none
  else if reservedWords.contains id then some (.keyword id)
  else some (.name (Text.normalName id))

/-- Reads a word, or the quoted literal that it marks. -/
def scanWord (k : Cursor) : Option (Token × Cursor) :=
  let word := k.rest.takeWhile NumberLiteral.isNamePart
  let after := k.skip word.length
  let isMark := textMarks.contains (String.ofList (word.map Char.toLower))
  match after.rest with
  | [] => (wordToken? word).map (·, after)
  | c :: _ =>
    if isMark && (c == '\'' || c == '"') then scanText word c after
    else (wordToken? word).map (·, after)

/-- Reads a token other than a line end; the cursor stands at its first character. -/
def scanToken (s : LexState) (c : Char) (k : Cursor) : Option (LexState × Cursor) :=
  if c.isDigit || (c == '.' && (k.rest.drop 1).head?.any Char.isDigit) then
    (scanNumber k).map (s.accept k)
  else if c == '\'' || c == '"' then (scanText [] c k).map (s.accept k)
  else if NumberLiteral.isNamePart c then (scanWord k).map (s.accept k)
  else do
    let symbol ← operators.find? fun o => o.toList.isPrefixOf k.rest
    let brackets ← trackBracket s.brackets symbol
    return { s with brackets }.accept k (.op symbol, k.skip symbol.length)

/-- Ends the token list. -/
def close (s : LexState) (pos : Position) : Option (List Lexeme) :=
  if s.brackets.isEmpty then some (s.emit .stop pos pos).tokens.toList else none

/-- Whether the rest of a line holds a comment at most. -/
def isBlankRest : List Char → Bool
  | c :: _ => c == '#' || c == '\n'
  | [] => false

/-- Where a line starts, compares its indentation with the open ones.  The last result says whether
the line is blank. -/
def beginLine (s : LexState) (k : Cursor) : Option (LexState × Cursor × Bool) :=
  if s.atLineStart then do
    let (i, k) ← lineIndent none .zero k.pos k.rest
    let s := { s with atLineStart := false }
    if isBlankRest k.rest || !s.brackets.isEmpty then return (s, k, isBlankRest k.rest)
    return (← indentLine s i k.pos, k, false)
  else some (s, k, false)

/-- Passes over blanks and a comment. -/
def skipIgnored (k : Cursor) : Cursor :=
  let blanks := k.rest.takeWhile fun c => c == ' ' || c == '\t' || c == '\x0c'
  let k := k.skip blanks.length
  match k.rest with
  | '#' :: _ => k.skip (k.rest.takeWhile (· != '\n')).length
  | _ => k

/-- The loop over lines and tokens.  Every round but the last passes over some character, so the
length of the text bounds the number of rounds. -/
def loop : Nat → LexState → Cursor → Option (List Lexeme)
  | 0, _, _ => none
  | fuel + 1, s, k => do
    let (s, k, isBlankLine) ← beginLine s k
    let k := skipIgnored k
    match k.rest with
    | [] => close s k.pos
    | '\n' :: _ =>
      let after := k.next
      let s := if isBlankLine || !s.brackets.isEmpty then s
        else s.emit .newline k.pos ⟨k.pos.line, k.pos.column + 1⟩
      loop fuel { s with atLineStart := true } after
    | '\\' :: rest =>
      match rest with
      | '\n' :: _ :: _ => loop fuel s (k.skip 2)
      | _ => none
    | c :: _ => do
      let (s, k) ← scanToken s c k
      loop fuel s k

end Lexer

/-- Cuts a text with unified line ends into tokens, counting places from `pos`. -/
def Token.scanFrom (pos : Position) (cs : List Char) : Option (List Lexeme) :=
  Lexer.loop (2 * cs.length + 2) ⟨[.zero], [], true, #[]⟩ ⟨cs, pos⟩

/-- The place where a text starts. -/
def Position.first : Position := ⟨1, 0⟩

/-- Cuts a whole text into tokens. -/
def Token.scan (cs : List Char) : Option (List Lexeme) :=
  Token.scanFrom .first cs

end RouteLens
