import RouteLens.Fault
import RouteLens.Text.Utf8

/-!
# Lexemes of a document

A settings document is first cut into lexemes: marks of structure and scalar texts.  Indentation
shows only as lexemes that open and close blocks.  Whether a scalar is the key of an entry is known
only once the colon after it is reached, so a key that may still turn out to be one is remembered
with its place, and the mark of the key is put there when the colon comes.
-/

namespace RouteLens.Document

/-- A piece of a document. -/
inductive Lexeme where
  | version (major : Nat)
  | tagShorthand (handle full : String)
  | otherDirective
  | documentStart
  | documentEnd
  | blockSequence
  | blockMapping
  | blockEnd
  | flowSequence
  | flowSequenceEnd
  | flowMapping
  | flowMappingEnd
  | entry
  | comma
  | key
  | value
  | reference (name : String)
  | label (name : String)
  | tag (handle : Option String) (rest : String)
  | scalar (text : String) (plain : Bool)
  deriving DecidableEq

/-! ## Characters -/

/-- A line break. -/
def isBreak (c : Char) : Bool :=
  c == '\n' || c == '\r' || c == '\x85' || c == '\u2028' || c == '\u2029'

/-- A blank, a tab or a line break. -/
def isSpace (c : Char) : Bool :=
  c == ' ' || c == '\t' || isBreak c

/-- Whether there is no character, or a blank, a tab or a line break. -/
def endsWord (c : Option Char) : Bool :=
  c.all isSpace

/-- Whether there is no character, or a blank or a line break. -/
def endsHeader (c : Option Char) : Bool :=
  c.all fun c => c == ' ' || isBreak c

/-- A character of a name. -/
def isNameChar (c : Char) : Bool :=
  c.isAlphanum || c == '-' || c == '_'

/-- A character of a tag. -/
def isTagChar (c : Char) : Bool :=
  c.isAlphanum || "-;/?:@&=+$,_.!~*'()[]%".toList.contains c

/-- A hexadecimal digit. -/
def isHexDigit (c : Char) : Bool :=
  c.isDigit || ('a' ≤ c && c ≤ 'f') || ('A' ≤ c && c ≤ 'F')

/-- The value of a hexadecimal digit. -/
def hexValue (c : Char) : Nat :=
  if c.isDigit then c.toNat - '0'.toNat
  else if 'a' ≤ c then c.toNat - 'a'.toNat + 10
  else c.toNat - 'A'.toNat + 10

/-- The value of hexadecimal digits. -/
def hexNumber (cs : List Char) : Nat :=
  cs.foldl (fun n c => n * 16 + hexValue c) 0

/-- A character that may stand in a document at all. -/
def isAllowed (c : Char) : Bool :=
  let n := c.toNat
  n == 9 || n == 10 || n == 13 || (0x20 ≤ n && n ≤ 0x7e) || n == 0x85 || (0xa0 ≤ n && n ≤ 0xd7ff) ||
    (0xe000 ≤ n && n ≤ 0xfffd) || 0x10000 ≤ n

/-- Whether a line that separates documents starts here. -/
def atSeparator (cs : List Char) : Bool :=
  (cs.take 3 == ['-', '-', '-'] || cs.take 3 == ['.', '.', '.']) && endsWord cs[3]?

/-! ## State -/

/-- A lexeme that will have been a key if a colon follows. -/
structure OpenKey where
  place : Nat
  required : Bool
  index : Nat
  line : Nat
  column : Nat

/-- How far a document has been read.  `done` holds the newest lexeme first, and `keys` the open
key of each level of brackets. -/
structure Lexing where
  rest : List Char
  index : Nat := 0
  line : Nat := 0
  column : Nat := 0
  depth : Nat := 0
  indent : Int := -1
  indents : List Int := []
  keyAllowed : Bool := true
  keys : List (Nat × OpenKey) := []
  done : List Lexeme := []

namespace Lexing

/-- Moves over one character. -/
def step (s : Lexing) : Lexing :=
  match s.rest with
  | [] => s
  | c :: cs =>
    let moved := { s with rest := cs, index := s.index + 1 }
    if isBreak c && !(c == '\r' && cs.head? == some '\n') then
      { moved with line := s.line + 1, column := 0 }
    else if c == '\ufeff' then moved
    else { moved with column := s.column + 1 }

/-- Moves over several characters. -/
def advance (s : Lexing) : Nat → Lexing
  | 0 => s
  | n + 1 => s.step.advance n

/-- Adds a lexeme. -/
def emit (s : Lexing) (l : Lexeme) : Lexing :=
  { s with done := l :: s.done }

/-- Puts a lexeme before those that came from a place on. -/
def insert (s : Lexing) (place : Nat) (l : Lexeme) : Lexing :=
  let newer := s.done.length - place
  { s with done := s.done.take newer ++ l :: s.done.drop newer }

/-- Opens a block at a column, if the column is deeper than the present indentation. -/
def deepen? (s : Lexing) (column : Nat) : Option Lexing :=
  if s.indent < column then some { s with indents := s.indent :: s.indents, indent := column }
  else none

/-- Closes the blocks that are deeper than a column. -/
def closeBlocks (column : Int) (s : Lexing) : List Int → Lexing
  | [] => s
  | outer :: rest =>
    if s.indent > column then
      closeBlocks column
        { s with indent := outer, indents := rest, done := .blockEnd :: s.done } rest
    else s

/-- Closes the blocks that are deeper than a column; inside brackets there are none. -/
def unwind (s : Lexing) (column : Int) : Lexing :=
  if s.depth == 0 then s.closeBlocks column s.indents else s

end Lexing

/-- Reading a document piece by piece. -/
abbrev Lex := StateT Lexing (Except Fault)

namespace Lex

/-- The document is refused. -/
def refuse {α : Type} : Lex α :=
  throw .badDocument

/-- The character at a distance. -/
def peek (n : Nat := 0) : Lex (Option Char) := do
  return (← get).rest[n]?

/-- Moves over characters. -/
def forward (n : Nat) : Lex Unit :=
  modify (·.advance n)

/-- Takes the longest run of characters of a class. -/
def takeRun (p : Char → Bool) : Lex (List Char) := do
  let run := (← get).rest.takeWhile p
  forward run.length
  return run

/-- The number of characters that are left, and one more: a bound for every loop that moves. -/
def bound : Lex Nat := do
  return (← get).rest.length + 1

/-- Takes a line break, if there is one, in its normal form. -/
def lineBreak : Lex (Option Char) := do
  match (← get).rest with
  | '\r' :: '\n' :: _ => forward 2; return some '\n'
  | c :: _ =>
    if c == '\u2028' || c == '\u2029' then forward 1; return some c
    else if isBreak c then forward 1; return some '\n'
    else return none
  | [] => return none

/-- Adds a lexeme. -/
def emit (l : Lexeme) : Lex Unit :=
  modify (·.emit l)

/-! ## Open keys -/

/-- Forgets the open key of the present level.  One that had to be a key refuses the document. -/
def dropKey : Lex Unit := do
  let s ← get
  match s.keys.find? (·.1 == s.depth) with
  | some (_, k) => if k.required then refuse
  | none => pure ()
  set { s with keys := s.keys.filter (·.1 != s.depth) }

/-- Forgets the open keys that are too far back. -/
def dropStaleKeys : Lex Unit := do
  let s ← get
  let stale (k : OpenKey) : Bool := k.line != s.line || s.index - k.index > 1024
  if s.keys.any fun k => stale k.2 && k.2.required then refuse
  set { s with keys := s.keys.filter fun k => !stale k.2 }

/-- Remembers that the next lexeme may be a key. -/
def openKey : Lex Unit := do
  if (← get).keyAllowed then
    dropKey
    let s ← get
    let k : OpenKey :=
      { place := s.done.length, required := s.depth == 0 && s.indent == s.column,
        index := s.index, line := s.line, column := s.column }
    set { s with keys := (s.depth, k) :: s.keys }

/-- Sets whether a key may come next. -/
def allowKey (b : Bool) : Lex Unit :=
  modify fun s => { s with keyAllowed := b }

/-! ## Blanks and headers -/

/-- Moves over blanks, line breaks and comments. -/
def skipBlanks : Nat → Lex Unit
  | 0 => pure ()
  | n + 1 => do
    let _ ← takeRun (· == ' ')
    if (← peek) == some '#' then
      let _ ← takeRun fun c => !isBreak c
    if (← lineBreak).isSome then
      if (← get).depth == 0 then allowKey true
      skipBlanks n

/-- Moves over the rest of a header line, which may hold a comment only. -/
def skipHeader : Lex Unit := do
  let _ ← takeRun (· == ' ')
  if (← peek) == some '#' then
    let _ ← takeRun fun c => !isBreak c
  if (← peek).all isBreak then
    let _ ← lineBreak
  else refuse

/-! ## Tags and names -/

/-- The bytes that escapes in a tag stand for. -/
def tagBytes : Nat → Lex (List UInt8)
  | 0 => return []
  | n + 1 => do
    match (← get).rest with
    | '%' :: a :: b :: _ =>
      if isHexDigit a && isHexDigit b then
        forward 3
        return UInt8.ofNat (hexNumber [a, b]) :: (← tagBytes n)
      else refuse
    | '%' :: _ => refuse
    | _ => return []

/-- The text of a tag, possibly empty. -/
def tagParts : Nat → Lex String
  | 0 => return ""
  | n + 1 => do
    let run ← takeRun fun c => isTagChar c && c != '%'
    if (← peek) == some '%' then
      let bytes ← tagBytes (← bound)
      match Utf8.decode bytes with
      | .ok s => return String.ofList run ++ s ++ (← tagParts n)
      | .error _ => refuse
    else return String.ofList run

/-- The text of a tag. -/
def tagText : Lex String := do
  let s ← tagParts (← bound)
  if s.isEmpty then refuse else return s

/-- The handle of a tag: an exclamation mark, or a name between two. -/
def tagHandle : Lex String := do
  if (← peek) != some '!' then refuse
  if (← peek 1) == some ' ' then
    forward 1
    return "!"
  forward 1
  let name ← takeRun isNameChar
  if (← peek) != some '!' then refuse
  forward 1
  return "!" ++ String.ofList name ++ "!"

/-- A tag. -/
def tag : Lex Lexeme := do
  let next ← peek 1
  let l ←
    if next == some '<' then do
      forward 2
      let s ← tagText
      if (← peek) != some '>' then refuse
      forward 1
      pure (.tag none s)
    else if endsWord next then do
      forward 1
      pure (.tag none "!")
    else do
      let word := ((← get).rest.drop 1).takeWhile fun c => !(c == ' ' || isBreak c)
      let handle ← if word.contains '!' then tagHandle else do
        forward 1
        pure "!"
      pure (.tag (some handle) (← tagText))
  if endsHeader (← peek) then return l else refuse

/-- The name of a label or of a reference to one. -/
def labelName : Lex String := do
  forward 1
  let name ← takeRun isNameChar
  if name.isEmpty then refuse
  if (← peek).all fun c => isSpace c || "?:,]\x7d%@\x60".toList.contains c then
    return String.ofList name
  else refuse

/-! ## Directives -/

/-- A number of a directive. -/
def directiveNumber : Lex Nat := do
  let digits ← takeRun Char.isDigit
  if digits.isEmpty then refuse
  return digits.foldl (fun n c => n * 10 + (c.toNat - '0'.toNat)) 0

/-- A directive. -/
def directive : Lex Lexeme := do
  forward 1
  let name ← takeRun isNameChar
  if name.isEmpty || !endsHeader (← peek) then refuse
  let l ←
    if name == "YAML".toList then do
      let _ ← takeRun (· == ' ')
      let major ← directiveNumber
      if (← peek) != some '.' then refuse
      forward 1
      let _ ← directiveNumber
      if !endsHeader (← peek) then refuse
      pure (.version major)
    else if name == "TAG".toList then do
      let _ ← takeRun (· == ' ')
      let handle ← tagHandle
      if (← peek) != some ' ' then refuse
      let _ ← takeRun (· == ' ')
      let full ← tagText
      if !endsHeader (← peek) then refuse
      pure (.tagShorthand handle full)
    else do
      let _ ← takeRun fun c => !isBreak c
      pure .otherDirective
  skipHeader
  return l

/-! ## Block scalars -/

/-- What becomes of the line breaks at the end of a block scalar. -/
inductive Chomping where
  | strip
  | clip
  | keep
  deriving DecidableEq

/-- The mark of what becomes of the last line breaks. -/
def chomping? : Lex (Option Chomping) := do
  match ← peek with
  | some '+' => forward 1; return some .keep
  | some '-' => forward 1; return some .strip
  | _ => return none

/-- The mark of the indentation of a block scalar. -/
def increment? : Lex (Option Nat) := do
  match ← peek with
  | some c =>
    if c == '0' then refuse
    else if c.isDigit then
      forward 1
      return some (c.toNat - '0'.toNat)
    else return none
  | none => return none

/-- The marks at the start of a block scalar, in either order. -/
def blockMarks : Lex (Chomping × Option Nat) := do
  let first ← chomping?
  let increment ← increment?
  let second ← if first.isNone && increment.isSome then chomping? else pure none
  if endsHeader (← peek) then
    return ((first.orElse fun _ => second).getD .clip, increment)
  else refuse

/-- Moves over the blanks of an indentation. -/
def skipIndent (indent : Nat) : Lex Unit := do
  let s ← get
  forward (min (s.rest.takeWhile (· == ' ')).length (indent - s.column))

/-- The line breaks before the next line of a block scalar. -/
def blockBreaks (indent : Nat) : Nat → Lex (List Char)
  | 0 => return []
  | n + 1 => do
    skipIndent indent
    match ← lineBreak with
    | some c => return c :: (← blockBreaks indent n)
    | none => return []

/-- The line breaks before the first line of a block scalar, and the widest blank line or the
indentation of the first line. -/
def blockStart (widest : Nat) : Nat → Lex (List Char × Nat)
  | 0 => return ([], widest)
  | n + 1 => do
    let run ← takeRun (· == ' ')
    let column := (← get).column
    let widest := if run.isEmpty then widest else max widest column
    match ← lineBreak with
    | some c =>
      let (breaks, widest) ← blockStart widest n
      return (c :: breaks, widest)
    | none => return (([] : List Char), widest)

/-- The text of a block scalar from its first line on, and the line breaks that follow the last
line: the one that ends it and the others. -/
def blockLines (folded : Bool) (indent : Nat) (breaks : List Char) :
    Nat → Lex (List Char × Option Char × List Char)
  | 0 => return ([], none, breaks)
  | n + 1 => do
    let s ← get
    if s.column != indent || s.rest.isEmpty then return (([] : List Char), none, breaks)
    let flush := !(s.rest.head?.any fun c => c == ' ' || c == '\t')
    let line ← takeRun fun c => !isBreak c
    let ending ← lineBreak
    let more ← blockBreaks indent (← bound)
    let s ← get
    if s.column == indent && !s.rest.isEmpty then
      let joint :=
        if folded && ending == some '\n' && flush &&
            !(s.rest.head?.any fun c => c == ' ' || c == '\t') then
          if more.isEmpty then [' '] else []
        else ending.toList
      let (text, last, tail) ← blockLines folded indent more n
      return (breaks ++ line ++ joint ++ text, last, tail)
    else return (breaks ++ line, ending, more)

/-- A block scalar. -/
def blockScalar (folded : Bool) : Lex Lexeme := do
  forward 1
  let (chomping, increment) ← blockMarks
  skipHeader
  let least := (max ((← get).indent + 1) 1).toNat
  let (breaks, indent) ← match increment with
    | none => do
      let (breaks, widest) ← blockStart 0 (← bound)
      pure (breaks, max least widest)
    | some k => do
      let indent := least + k - 1
      pure (← blockBreaks indent (← bound), indent)
  let (text, last, tail) ← blockLines folded indent breaks (← bound)
  let ending := if chomping == .strip then [] else last.toList
  let extra := if chomping == .keep then tail else []
  return .scalar (String.ofList (text ++ ending ++ extra)) false

/-! ## Quoted scalars -/

/-- The escapes that stand for one character. -/
def escapes : List (Char × Char) :=
  [('0', '\x00'), ('a', '\x07'), ('b', '\x08'), ('t', '\t'), ('\t', '\t'), ('n', '\n'),
   ('v', '\x0b'), ('f', '\x0c'), ('r', '\r'), ('e', '\x1b'), (' ', ' '), ('"', '"'), ('\\', '\\'),
   ('/', '/'), ('N', '\x85'), ('_', '\xa0'), ('L', '\u2028'), ('P', '\u2029')]

/-- The number of digits of the escapes that give a code. -/
def escapeWidth? (c : Char) : Option Nat :=
  if c == 'x' then some 2 else if c == 'u' then some 4 else if c == 'U' then some 8 else none

/-- The line breaks inside a quoted scalar, after the first. -/
def quotedBreaks : Nat → Lex (List Char)
  | 0 => return []
  | n + 1 => do
    if atSeparator (← get).rest then refuse
    let _ ← takeRun fun c => c == ' ' || c == '\t'
    match ← lineBreak with
    | some c => return c :: (← quotedBreaks n)
    | none => return []

/-- How a line break and those after it show in a scalar that is folded. -/
def foldedBreak (first : Char) (more : List Char) : List Char :=
  (if first != '\n' then [first] else if more.isEmpty then [' '] else []) ++ more

/-- What an escape stands for. -/
def escaped : Lex (List Char) := do
  forward 1
  match ← peek with
  | none => refuse
  | some c =>
    match escapes.lookup c, escapeWidth? c with
    | some d, _ => forward 1; return [d]
    | none, some width =>
      forward 1
      let digits := (← get).rest.take width
      if digits.length == width && digits.all isHexDigit then
        forward width
        return [Char.ofNat (hexNumber digits)]
      else refuse
    | none, none =>
      if isBreak c then
        let _ ← lineBreak
        quotedBreaks (← bound)
      else refuse

/-- The rest of a quoted scalar. -/
def quotedRest (double : Bool) : Nat → Lex (List Char)
  | 0 => refuse
  | n + 1 => do
    let quote := if double then '"' else '\''
    match (← get).rest with
    | [] => refuse
    | c :: cs =>
      if c == quote then
        if !double && cs.head? == some '\'' then
          forward 2
          return '\'' :: (← quotedRest double n)
        forward 1
        return []
      else if double && c == '\\' then
        let part ← escaped
        return part ++ (← quotedRest double n)
      else if isSpace c then
        let blanks ← takeRun fun c => c == ' ' || c == '\t'
        match ← lineBreak with
        | some first =>
          let more ← quotedBreaks (← bound)
          return foldedBreak first more ++ (← quotedRest double n)
        | none => return blanks ++ (← quotedRest double n)
      else
        let run ← takeRun fun c => !(isSpace c || c == '"' || c == '\'' || c == '\\')
        if run.isEmpty then
          forward 1
          return c :: (← quotedRest double n)
        return run ++ (← quotedRest double n)

/-- A quoted scalar. -/
def quoted (double : Bool) : Lex Lexeme := do
  forward 1
  return .scalar (String.ofList (← quotedRest double (← bound))) false

/-! ## Plain scalars -/

/-- The length of the run of characters that a plain scalar can take without a blank. -/
def plainRun (flow : Bool) : List Char → Nat
  | [] => 0
  | c :: cs =>
    let stops := isSpace c ||
      (c == ':' && (endsWord cs.head? ||
        (flow && cs.head?.any fun d => ",[]\x7b\x7d".toList.contains d))) ||
      (flow && ",?[]\x7b\x7d".toList.contains c)
    if stops then 0 else plainRun flow cs + 1

/-- The line breaks inside a plain scalar, after the first; nothing if a separator of documents is
reached. -/
def plainBreaks : Nat → Lex (Option (List Char))
  | 0 => return some []
  | n + 1 => do
    let _ ← takeRun (· == ' ')
    match ← lineBreak with
    | some c =>
      if atSeparator (← get).rest then return none
      return (← plainBreaks n).map (c :: ·)
    | none => return some []

/-- The blanks and line breaks after a run of a plain scalar, as they show in it. -/
def plainBlanks : Lex (List Char) := do
  let blanks ← takeRun (· == ' ')
  match ← lineBreak with
  | none => return blanks
  | some first =>
    allowKey true
    if atSeparator (← get).rest then return []
    match ← plainBreaks (← bound) with
    | none => return []
    | some more => return foldedBreak first more

/-- The runs of a plain scalar with what stands between them. -/
def plainRuns (indent : Int) (before : List Char) : Nat → Lex (List Char)
  | 0 => return []
  | n + 1 => do
    let s ← get
    let length := plainRun (s.depth != 0) s.rest
    if s.rest.head? == some '#' || length == 0 then return []
    allowKey false
    forward length
    let blanks ← plainBlanks
    let run := before ++ s.rest.take length
    let s ← get
    if blanks.isEmpty || s.rest.head? == some '#' || (s.depth == 0 && s.column < indent) then
      return run
    return run ++ (← plainRuns indent blanks n)

/-- A plain scalar. -/
def plain : Lex Lexeme := do
  let indent := (← get).indent + 1
  return .scalar (String.ofList (← plainRuns indent [] (← bound))) true

/-- Whether a plain scalar can start here. -/
def startsPlain (flow : Bool) (c : Char) (next : Option Char) : Bool :=
  !(isSpace c || "-?:,[]\x7b\x7d#&*!|>'\"%@\x60".toList.contains c) ||
    (!endsWord next && (c == '-' || (!flow && (c == '?' || c == ':'))))

/-! ## The next lexeme -/

/-- Opens a block at a column, with its mark, if the column is deeper. -/
def openBlock (column : Nat) (l : Lexeme) : Lex Unit := do
  match (← get).deepen? column with
  | some s => set (s.emit l)
  | none => pure ()

/-- A mark that starts an entry or a key of a block.  In a block it may only stand where a key
may. -/
def blockMark (block l : Lexeme) (keyAfter : Bool) : Lex Unit := do
  let s ← get
  if s.depth == 0 then
    if !s.keyAllowed then refuse
    openBlock s.column block
  allowKey keyAfter
  dropKey
  forward 1
  emit l

/-- The colon before a value.  If there is an open key, its mark is put in its place. -/
def valueMark : Lex Unit := do
  let s ← get
  match s.keys.find? (·.1 == s.depth) with
  | some (_, k) =>
    let s := { s with keys := s.keys.filter (·.1 != s.depth), keyAllowed := false }
    let s := s.insert k.place .key
    set (if s.depth == 0 then
      match s.deepen? k.column with
      | some s => s.insert k.place .blockMapping
      | none => s
    else s)
    forward 1
    emit .value
  | none => blockMark .blockMapping .value (s.depth == 0)

/-- A line that separates documents, or a directive, closes every block. -/
def closeAll : Lex Unit := do
  modify (·.unwind (-1))
  dropKey
  allowKey false

/-- A lexeme that may be a key. -/
def keyPart (l : Lex Lexeme) : Lex Unit := do
  openKey
  allowKey false
  emit (← l)

/-- An opening bracket. -/
def openBracket (l : Lexeme) : Lex Unit := do
  openKey
  modify fun s => { s with depth := s.depth + 1, keyAllowed := true }
  forward 1
  emit l

/-- A closing bracket. -/
def closeBracket (l : Lexeme) : Lex Unit := do
  dropKey
  if (← get).depth == 0 then refuse
  modify fun s => { s with depth := s.depth - 1, keyAllowed := false }
  forward 1
  emit l

/-- The lexeme that starts with a character. -/
def lexemeAt (c : Char) : Lex Unit := do
  let s ← get
  let next := s.rest[1]?
  let flow := s.depth != 0
  if c == '%' && s.column == 0 then
    closeAll
    emit (← directive)
  else if s.column == 0 && atSeparator s.rest then
    closeAll
    forward 3
    emit (if c == '-' then .documentStart else .documentEnd)
  else if c == '[' then openBracket .flowSequence
  else if c == '\x7b' then openBracket .flowMapping
  else if c == ']' then closeBracket .flowSequenceEnd
  else if c == '\x7d' then closeBracket .flowMappingEnd
  else if c == ',' then
    allowKey true
    dropKey
    forward 1
    emit .comma
  else if c == '-' && endsWord next then blockMark .blockSequence .entry true
  else if c == '?' && (flow || endsWord next) then blockMark .blockMapping .key (!flow)
  else if c == ':' && (flow || endsWord next) then valueMark
  else if c == '*' then keyPart (return .reference (← labelName))
  else if c == '&' then keyPart (return .label (← labelName))
  else if c == '!' then keyPart tag
  else if (c == '|' || c == '>') && !flow then
    allowKey true
    dropKey
    emit (← blockScalar (c == '>'))
  else if c == '\'' || c == '"' then keyPart (quoted (c == '"'))
  else if startsPlain flow c next then keyPart plain
  else refuse

/-- All lexemes. -/
def all : Nat → Lex Unit
  | 0 => refuse
  | n + 1 => do
    skipBlanks (← bound)
    dropStaleKeys
    modify fun s => s.unwind s.column
    match ← peek with
    | none => closeAll
    | some c =>
      lexemeAt c
      all n

end Lex

/-- The lexemes of a document. -/
def lexemes (s : String) : Except Fault (List Lexeme) := do
  if !s.toList.all isAllowed then throw .badDocument
  let start : Lexing := { rest := s.toList }
  let start := if start.rest.head? == some '\ufeff' then start.step else start
  let (_, s) ← (Lex.all (start.rest.length + 1)).run start
  return s.done.reverse

end RouteLens.Document
