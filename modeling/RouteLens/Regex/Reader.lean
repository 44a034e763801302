import RouteLens.Regex
import RouteLens.Text.CharacterName
import RouteLens.Text.Identifier
import RouteLens.Text.Quote

/-!
# Reading patterns

A pattern text becomes a regular expression, or is refused with a message and the place it is
about.  Options in parentheses apply to what follows them inside the same parentheses; options for
the whole pattern have to come first.
-/

namespace RouteLens

variable {edition : Nat} [CharacterNames edition]

/-- Why a pattern is refused, and where. -/
structure RegexFault where
  reason : String
  position : Option Nat

/-- The least and the greatest number of characters that an expression takes. -/
structure Width where
  least : Nat
  most : Option Nat

namespace Width

/-- One after the other. -/
def plus (a b : Width) : Width :=
  ⟨a.least + b.least, do return (← a.most) + (← b.most)⟩

/-- One or the other. -/
def either (a b : Width) : Width :=
  ⟨min a.least b.least, do return max (← a.most) (← b.most)⟩

/-- Several rounds; no rounds or empty ones take nothing. -/
def times (a : Width) (least : Nat) (most : Option Nat) : Width :=
  ⟨a.least * least,
    match a.most, most with
    | some 0, _ => some 0
    | _, some 0 => some 0
    | some m, some n => some (m * n)
    | _, _ => none⟩

end Width

namespace Regex

/-- The width of an expression, given the widths of the groups it refers to. -/
def width (groups : List (Nat × Width)) : Regex → Width
  | .never => ⟨0, some 0⟩
  | .empty => ⟨0, some 0⟩
  | .any _ => ⟨1, some 1⟩
  | .oneOf .. => ⟨1, some 1⟩
  | .at _ => ⟨0, some 0⟩
  | .seq a b => (a.width groups).plus (b.width groups)
  | .alt a b => (a.width groups).either (b.width groups)
  | .rep _ least most body => (body.width groups).times least most
  | .group _ body => body.width groups
  | .same i _ => (groups.lookup i).getD ⟨0, none⟩
  | .ahead .. => ⟨0, some 0⟩
  | .behind .. => ⟨0, some 0⟩
  | .atomic body => body.width groups
  | .ifGroup _ yes no => (yes.width groups).either (no.width groups)

end Regex

namespace RegexReader

/-- What has been read and what is left. -/
structure Progress where
  rest : List Char
  position : Nat
  length : Nat
  groups : Nat
  closed : List (Nat × Width)
  names : List (String × Nat)
  options : RegexOptions
  behindFrom : Option Nat
  references : List (Nat × Nat)
  unevenBehind : Bool

/-- A reader of a part of a pattern. -/
abbrev Reader := StateT Progress (Except RegexFault)

/-- The unit in which a pattern is read: a character, or a backslash with the character after
it. -/
inductive Mark where
  | plain (c : Char)
  | escaped (c : Char)
  deriving DecidableEq

namespace Mark

/-- The characters of a mark. -/
def chars : Mark → List Char
  | .plain c => [c]
  | .escaped c => ['\\', c]

/-- The text of a mark. -/
def text (m : Mark) : String :=
  String.ofList m.chars

end Mark

/-- Refuses the pattern at a number of characters before the next mark. -/
def refuse {α : Type} (reason : String) (back : Nat) : Reader α := do
  throw ⟨reason, some ((← get).position - back)⟩

/-- The next mark. -/
def peek : Reader (Option Mark) := do
  match (← get).rest with
  | [] => return none
  | '\\' :: c :: _ => return some (.escaped c)
  | c :: _ => return some (.plain c)

/-- Refuses a pattern that goes on with a lone backslash. -/
def checkEnd : Reader Unit := do
  let s ← get
  if s.rest == ['\\'] then throw ⟨"bad escape (end of pattern)", some (s.length - 1)⟩

/-- Takes the next mark. -/
def take : Reader (Option Mark) := do
  match ← peek with
  | none => return none
  | some m =>
    modify fun s =>
      { s with rest := s.rest.drop m.chars.length, position := s.position + m.chars.length }
    checkEnd
    return some m

/-- Takes the next mark if it is a given character. -/
def takeIf (c : Char) : Reader Bool := do
  if (← peek) == some (.plain c) then
    let _ ← take
    return true
  return false

/-- Takes at most a number of characters of a kind. -/
def takeWhile (accept : Char → Bool) : Nat → Reader (List Char)
  | 0 => return []
  | n + 1 => do
    match ← peek with
    | some (.plain c) =>
      if accept c then
        let _ ← take
        return c :: (← takeWhile accept n)
      else return []
    | _ => return []

/-- Takes marks up to a closing character. -/
def takeUntil (close : Char) (what : String) (fuel : Nat) : Reader String := do
  let rec go (taken : List Char) : Nat → Reader String
    | 0 => refuse ("missing " ++ what) 0
    | fuel + 1 => do
      match ← take with
      | none =>
        if taken.isEmpty then refuse ("missing " ++ what) 0
        else refuse ("missing " ++ String.singleton close ++ ", unterminated name") taken.length
      | some m =>
        if m == .plain close then
          if taken.isEmpty then refuse ("missing " ++ what) 1
          else return String.ofList taken
        else go (taken ++ m.chars) fuel
  go [] fuel

/-- A digit of base eight. -/
def isOctal (c : Char) : Bool :=
  '0' ≤ c && c ≤ '7'

/-- A digit of base sixteen. -/
def isHex (c : Char) : Bool :=
  (Text.hexDigit? c).isSome

/-- The number that digits spell in a base. -/
def numberOf (base : Nat) (cs : List Char) : Nat :=
  cs.foldl (fun n c => n * base + (Text.hexDigit? c).getD 0) 0

/-- The characters that single letters stand for after a backslash. -/
def plainEscapes : List (Char × Nat) :=
  [('a', 7), ('b', 8), ('f', 12), ('n', 10), ('r', 13), ('t', 9), ('v', 11), ('\\', 92)]

/-- The classes that single letters stand for after a backslash. -/
def categoryEscapes : List (Char × SetItem) :=
  [('d', .category .digit false), ('D', .category .digit true), ('s', .category .space false),
   ('S', .category .space true), ('w', .category .word false), ('W', .category .word true)]

/-- Refuses an escape. -/
def badEscape {α : Type} (cs : List Char) : Reader α :=
  refuse ("bad escape " ++ String.ofList cs) cs.length

/-- A character given by an exact number of digits of base sixteen. -/
def hexEscape (c : Char) (digits : Nat) : Reader Nat := do
  let ds ← takeWhile isHex digits
  let cs := '\\' :: c :: ds
  if ds.length ≠ digits then refuse ("incomplete escape " ++ String.ofList cs) cs.length
  else
    let n := numberOf 16 ds
    if n < 0x110000 then return n else badEscape cs

/-- A named character. -/
def namedEscape (fuel : Nat) : Reader Nat := do
  if !(← takeIf '\x7b') then refuse "missing \x7b" 0
  else
    let name ← takeUntil '\x7d' "character name" fuel
    match CharacterNames.find? name with
    | some c => return c.toNat
    | none => refuse ("undefined character name " ++ Text.quote name) (name.length + 4)

/-- The character that an escape gives by a number, if it is of that form. -/
def codeEscape? (c : Char) (fuel : Nat) : Reader (Option Nat) := do
  match c with
  | 'x' => return some (← hexEscape c 2)
  | 'u' => return some (← hexEscape c 4)
  | 'U' => return some (← hexEscape c 8)
  | 'N' => return some (← namedEscape fuel)
  | _ => return none

/-- An escape that stands for its own character: any but a letter or a digit. -/
def ownEscape (c : Char) : Reader Nat :=
  if c.isAlpha || c.isDigit then badEscape ['\\', c] else return c.toNat

/-- An octal escape. -/
def octalEscape (cs : List Char) : Reader Nat := do
  let n := numberOf 8 cs
  let written := '\\' :: cs
  if 255 < n then
    refuse ("octal escape value " ++ String.ofList written ++ " outside of range 0-0o377")
      written.length
  else return n

/-- An escape inside a set of characters. -/
def setEscape (c : Char) (fuel : Nat) : Reader SetItem := do
  match plainEscapes.lookup c, categoryEscapes.lookup c with
  | some n, _ => return .single n
  | none, some item => return item
  | none, none =>
    match ← codeEscape? c fuel with
    | some n => return .single n
    | none =>
      if isOctal c then return .single (← octalEscape (c :: (← takeWhile isOctal 2)))
      else return .single (← ownEscape c)

/-- One member of a set of characters. -/
def setMember (m : Mark) (fuel : Nat) : Reader SetItem :=
  match m with
  | .plain c => return .single c.toNat
  | .escaped c => setEscape c fuel

/-- The members of a set up to its closing bracket.  A bracket that comes first is a member. -/
def setMembers (start size : Nat) (done : List SetItem) : Nat → Reader (List SetItem)
  | 0 => refuse "unterminated character set" 0
  | fuel + 1 => do
    let unterminated : Reader (List SetItem) := do
      throw ⟨"unterminated character set", some start⟩
    match ← take with
    | none => unterminated
    | some m =>
      if m == .plain ']' && !done.isEmpty then return done
      else
        let first ← setMember m size
        if ← takeIf '-' then
          match ← take with
          | none => unterminated
          | some (.plain ']') => return done ++ [first, .single '-'.toNat]
          | some m' =>
            let last ← setMember m' size
            let bad : Reader (List SetItem) :=
              refuse ("bad character range " ++ m.text ++ "-" ++ m'.text)
                (m.chars.length + 1 + m'.chars.length)
            match first, last with
            | .single a, .single b =>
              if b < a then bad else setMembers start size (done ++ [.range a b]) fuel
            | _, _ => bad
        else setMembers start size (done ++ [first]) fuel

/-- Whether a group is complete. -/
def isClosed (index : Nat) : Reader Bool := do
  return ((← get).closed.lookup index).isSome

/-- Refuses a reference inside a lookbehind to a group that it opens itself or that is open. -/
def checkBehind (index : Nat) : Reader Unit := do
  match (← get).behindFrom with
  | none => return
  | some first =>
    if !(← isClosed index) then refuse "cannot refer to an open group" 0
    else if first ≤ index then
      refuse "cannot refer to group defined in the same lookbehind subpattern" 0

/-- The kinds of parts that a repetition tells apart. -/
inductive PieceKind where
  | plain
  | boundary
  | repeated
  deriving DecidableEq

/-- A part of a sequence. -/
structure Piece where
  kind : PieceKind
  regex : Regex

/-- An ordinary part. -/
def Piece.of (r : Regex) : Piece :=
  ⟨.plain, r⟩

/-- A part that takes one given character. -/
def Piece.char (o : RegexOptions) (code : Nat) : Piece :=
  .of (.oneOf false [.single code] o)

/-- The condition at a place that an escape stands for. -/
def boundary? (o : RegexOptions) (c : Char) : Option Boundary :=
  match c with
  | 'A' => some .start
  | 'Z' => some .stop
  | 'b' => some (.word false o.ascii)
  | 'B' => some (.word true o.ascii)
  | _ => none

/-- An escape that starts with a digit: a character given in base eight, or a group. -/
def digitEscape (o : RegexOptions) (c : Char) : Reader Piece := do
  if c == '0' then return .char o (numberOf 8 (c :: (← takeWhile isOctal 2)))
  else
    let second ← takeWhile Char.isDigit 1
    let third ← match second with
      | [d] => if isOctal c && isOctal d then takeWhile isOctal 1 else pure []
      | _ => pure []
    if !third.isEmpty then return .char o (← octalEscape (c :: second ++ third))
    else
      let written := c :: second
      let index := numberOf 10 written
      if index < (← get).groups then
        if !(← isClosed index) then
          refuse "cannot refer to an open group" (written.length + 1)
        else
          checkBehind index
          return .of (.same index o)
      else refuse ("invalid group reference " ++ toString index) written.length

/-- An escape outside a set of characters. -/
def escape (o : RegexOptions) (c : Char) (fuel : Nat) : Reader Piece := do
  match boundary? o c, categoryEscapes.lookup c, plainEscapes.lookup c with
  | some b, _, _ => return ⟨.boundary, .at b⟩
  | none, some item, _ => return .of (.oneOf false [item] o)
  | none, none, some n => return .char o n
  | none, none, none =>
    match ← codeEscape? c fuel with
    | some n => return .char o n
    | none => if c.isDigit then digitEscape o c else return .char o (← ownEscape c)

/-- The bounds of a repetition after its sign, if it is one. -/
def bounds? (c : Char) : Reader (Option (Nat × Option Nat)) := do
  match c with
  | '?' => return some (0, some 1)
  | '*' => return some (0, none)
  | '+' => return some (1, none)
  | _ =>
    let before ← get
    if (← peek) == some (.plain '\x7d') then return none
    let lo ← takeWhile Char.isDigit before.rest.length
    let hi ← if ← takeIf ',' then takeWhile Char.isDigit before.rest.length else pure lo
    if !(← takeIf '\x7d') then
      set before
      return none
    let least := numberOf 10 lo
    let most := if hi.isEmpty then none else some (numberOf 10 hi)
    if most.any (· < least) then
      throw ⟨"min repeat greater than max repeat", some before.position⟩
    return some (least, most)

/-- Applies a repetition to the last part of a sequence. -/
def repeatLast (here : Nat) (least : Nat) (most : Option Nat) (done : List Piece) :
    Reader (List Piece) := do
  match done with
  | [] => throw ⟨"nothing to repeat", some (here - 1)⟩
  | p :: ps =>
    match p.kind with
    | .boundary => throw ⟨"nothing to repeat", some (here - 1)⟩
    | .repeated => throw ⟨"multiple repeat", some (here - 1)⟩
    | .plain =>
      let greed ← if ← takeIf '?' then pure Greed.lazy
        else if ← takeIf '+' then pure Greed.possessive
        else pure Greed.greedy
      return ⟨.repeated, .rep greed least most p.regex⟩ :: ps

/-- Parts in a row, the last one first. -/
def sequenceOf (done : List Piece) : Regex :=
  match done with
  | [] => .empty
  | p :: ps => ps.foldl (fun r q => .seq q.regex r) p.regex

/-- The letters of options. -/
def optionLetters : List Char :=
  ['i', 'L', 'm', 's', 'x', 'a', 't', 'u']

/-- Turns one option on or off. -/
def setOption (on : Bool) (o : RegexOptions) (c : Char) : RegexOptions :=
  match c with
  | 'i' => { o with ignoreCase := on }
  | 'm' => { o with multiLine := on }
  | 's' => { o with dotAll := on }
  | 'x' => { o with verbose := on }
  | 'a' => { o with ascii := on }
  | 'u' => { o with ascii := !on }
  | _ => o

/-- Option letters to turn on, and the mark that ends them. -/
def optionsOn (c : Char) (done : List Char) : Nat → Reader (List Char × Char)
  | 0 => refuse "missing -, : or )" 0
  | fuel + 1 => do
    let all := c :: done
    if c == 'L' then refuse "bad inline flags: cannot use 'L' flag with a str pattern" 0
    else if all.contains 'a' && all.contains 'u' then
      refuse "bad inline flags: flags 'a', 'u' and 'L' are incompatible" 0
    else
      match ← take with
      | none => refuse "missing -, : or )" 0
      | some (.plain d) =>
        if d == ')' || d == '-' || d == ':' then return (all, d)
        else if optionLetters.contains d then optionsOn d all fuel
        else refuse (if d.isAlpha then "unknown flag" else "missing -, : or )") 1
      | some m => refuse "missing -, : or )" m.chars.length

/-- Option letters to turn off, up to the colon. -/
def optionsOff (done : List Char) (what : String) : Nat → Reader (List Char)
  | 0 => refuse what 0
  | fuel + 1 => do
    match ← take with
    | none => refuse what 0
    | some (.plain c) =>
      if c == ':' && !done.isEmpty then return done
      else if optionLetters.contains c then
        if c == 'a' || c == 'u' || c == 'L' then
          refuse "bad inline flags: cannot turn off flags 'a', 'u' and 'L'" 0
        else optionsOff (c :: done) "missing :" fuel
      else refuse (if c.isAlpha then "unknown flag" else what) 1
    | some m => refuse what m.chars.length

/-- What the options in parentheses apply to. -/
inductive Scope where
  | whole (options : RegexOptions)
  | inside (options : RegexOptions)

/-- Options in parentheses, from their first letter on. -/
def inlineOptions (o : RegexOptions) (c : Char) (fuel : Nat) : Reader Scope := do
  let (on, close) ← if c == '-' then pure ([], '-') else optionsOn c [] fuel
  let turnedOn := on.foldl (setOption true) o
  if close == ')' then return .whole turnedOn
  else if on.contains 't' then refuse "bad inline flags: cannot turn on global flag" 1
  else
    let off ← if close == '-' then optionsOff [] "missing flag" fuel else pure []
    if off.contains 't' then refuse "bad inline flags: cannot turn off global flag" 1
    else if off.any on.contains then refuse "bad inline flags: flag turned on and off" 1
    else return .inside (off.foldl (setOption false) turnedOn)

/-- Refuses a name that no group can have. -/
def checkName (name : String) : Reader Unit :=
  if Text.isName name.toList then return
  else refuse ("bad character in group name " ++ Text.quote name) (name.length + 1)

/-- The group of a name. -/
def groupNamed (name : String) : Reader Nat := do
  match (← get).names.lookup name with
  | some index => return index
  | none => refuse ("unknown group name " ++ Text.quote name) (name.length + 1)

/-- Opens a group. -/
def openGroup (name : Option String) : Reader Nat := do
  let s ← get
  let index := s.groups
  match name with
  | none => set { s with groups := index + 1 }
  | some n =>
    match s.names.lookup n with
    | some old =>
      refuse ("redefinition of group name " ++ Text.quote n ++ " as group " ++ toString index ++
        "; was group " ++ toString old) (n.length + 1)
    | none => set { s with groups := index + 1, names := (n, index) :: s.names }
  return index

/-- Closes a group. -/
def closeGroup (index : Nat) (body : Regex) : Reader Unit :=
  modify fun s => { s with closed := (index, body.width s.closed) :: s.closed }

/-- Takes the parenthesis that closes what started at a place. -/
def closeParen (start : Nat) : Reader Unit := do
  if !(← takeIf ')') then throw ⟨"missing ), unterminated subpattern", some start⟩

/-- Skips a comment. -/
def skipComment (start : Nat) : Nat → Reader Unit
  | 0 => return
  | fuel + 1 => do
    match ← take with
    | none => throw ⟨"missing ), unterminated comment", some start⟩
    | some m => if m == .plain ')' then return else skipComment start fuel

/-- Skips the rest of a line. -/
def skipLine : Nat → Reader Unit
  | 0 => return
  | fuel + 1 => do
    match ← take with
    | none => return
    | some m => if m == .plain '\n' then return else skipLine fuel

/-- The group that a condition asks about, by name or by number. -/
def conditionGroup (fuel : Nat) : Reader Nat := do
  let name ← takeUntil ')' "group name" fuel
  if Text.isName name.toList then groupNamed name
  else
    let bad : Reader Nat :=
      refuse ("bad character in group name " ++ Text.quote name) (name.length + 1)
    if !name.isEmpty && name.toList.all Char.isDigit then
      let index := numberOf 10 name.toList
      if index = 0 then refuse "bad group number" (name.length + 1)
      else
        modify fun s =>
          { s with references := s.references ++ [(index, s.position - name.length - 1)] }
        return index
    else bad

/-- What an opening parenthesis starts. -/
inductive Opening where
  | skipped
  | options (o : RegexOptions)
  | piece (p : Piece)
  | capture (name : Option String)
  | inside (o : RegexOptions)
  | atomic
  | look (ahead negated : Bool)
  | condition (index : Nat)

/-- Reads what follows an opening parenthesis at a place. -/
def opening (o : RegexOptions) (start fuel : Nat) : Reader Opening := do
  if !(← takeIf '?') then return .capture none
  match ← take with
  | none => refuse "unexpected end of pattern" 0
  | some (.plain 'P') =>
    if ← takeIf '<' then
      let name ← takeUntil '>' "group name" fuel
      checkName name
      return .capture (some name)
    else if ← takeIf '=' then
      let name ← takeUntil ')' "group name" fuel
      checkName name
      let index ← groupNamed name
      if !(← isClosed index) then refuse "cannot refer to an open group" (name.length + 1)
      else
        checkBehind index
        return .piece (.of (.same index o))
    else
      match ← take with
      | none => refuse "unexpected end of pattern" 0
      | some m => refuse ("unknown extension ?P" ++ m.text) (m.chars.length + 2)
  | some (.plain ':') => return .inside o
  | some (.plain '#') =>
    skipComment start fuel
    return .skipped
  | some (.plain '=') => return .look true false
  | some (.plain '!') => return .look true true
  | some (.plain '<') =>
    match ← take with
    | none => refuse "unexpected end of pattern" 0
    | some (.plain '=') => return .look false false
    | some (.plain '!') => return .look false true
    | some m => refuse ("unknown extension ?<" ++ m.text) (m.chars.length + 2)
  | some (.plain '(') =>
    let index ← conditionGroup fuel
    checkBehind index
    return .condition index
  | some (.plain '>') => return .atomic
  | some (.plain c) =>
    if optionLetters.contains c || c == '-' then
      match ← inlineOptions o c fuel with
      | .whole o' => return .options o'
      | .inside o' => return .inside o'
    else refuse ("unknown extension ?" ++ String.singleton c) 2
  | some m => refuse ("unknown extension ?" ++ m.text) (m.chars.length + 1)

/-- A lookaround around an expression. -/
def lookPiece (ahead negated : Bool) (body : Regex) : Reader Piece := do
  if ahead then
    return .of (if negated && body matches .empty then .never else .ahead negated body)
  else
    let w := body.width (← get).closed
    if w.most != some w.least then modify fun s => { s with unevenBehind := true }
    return .of (if negated && body matches .empty then .never else .behind negated w.least body)

mutual

/-- Alternatives divided by bars.  `outer` marks the whole pattern, whose options reach every
alternative. -/
def alternatives (o : RegexOptions) (outer : Bool) : Nat → Reader Regex
  | 0 => refuse "unbalanced parenthesis" 0
  | fuel + 1 => do
    let first ← branch o outer [] fuel
    if ← takeIf '|' then
      let o' ← if outer then pure (← get).options else pure o
      return .alt first (← otherAlternatives o' fuel)
    else return first

/-- The alternatives after the first one. -/
def otherAlternatives (o : RegexOptions) : Nat → Reader Regex
  | 0 => refuse "unbalanced parenthesis" 0
  | fuel + 1 => do
    let first ← branch o false [] fuel
    if ← takeIf '|' then return .alt first (← otherAlternatives o fuel) else return first

/-- A sequence of parts, given the ones already read, the last one first. -/
def branch (o : RegexOptions) (leading : Bool) (done : List Piece) : Nat → Reader Regex
  | 0 => refuse "unbalanced parenthesis" 0
  | fuel + 1 => do
    match ← peek with
    | none => return sequenceOf done
    | some m =>
      if m == .plain '|' || m == .plain ')' then return sequenceOf done
      let start := (← get).position
      let _ ← take
      match m with
      | .escaped c => branch o leading ((← escape o c fuel) :: done) fuel
      | .plain c =>
        if o.verbose && (c == ' ' || (9 ≤ c.toNat && c.toNat ≤ 13)) then
          branch o leading done fuel
        else if o.verbose && c == '#' then
          skipLine fuel
          branch o leading done fuel
        else if c == '[' then
          let negated ← takeIf '^'
          let items ← setMembers start fuel [] fuel
          branch o leading (.of (.oneOf negated items o) :: done) fuel
        else if c == '?' || c == '*' || c == '+' || c == '\x7b' then
          let here := (← get).position
          match ← bounds? c with
          | none => branch o leading (.char o c.toNat :: done) fuel
          | some (least, most) => branch o leading (← repeatLast here least most done) fuel
        else if c == '.' then branch o leading (.of (.any o.dotAll) :: done) fuel
        else if c == '^' then
          branch o leading (⟨.boundary, .at (if o.multiLine then .lineStart else .start)⟩ :: done)
            fuel
        else if c == '$' then
          branch o leading
            (⟨.boundary, .at (if o.multiLine then .lineStop else .lastLineStop)⟩ :: done) fuel
        else if c == '(' then
          match ← opening o start fuel with
          | .skipped => branch o leading done fuel
          | .piece p => branch o leading (p :: done) fuel
          | .options o' =>
            if !leading || !done.isEmpty then
              throw ⟨"global flags not at the start of the expression", some start⟩
            modify fun s => { s with options := o' }
            branch o' leading done fuel
          | .capture name =>
            let index ← openGroup name
            let body ← alternatives o false fuel
            closeParen start
            closeGroup index body
            branch o leading (.of (.group index body) :: done) fuel
          | .inside o' =>
            let body ← alternatives o' false fuel
            closeParen start
            branch o leading (.of body :: done) fuel
          | .atomic =>
            let body ← alternatives o false fuel
            closeParen start
            branch o leading (.of (.atomic body) :: done) fuel
          | .look ahead negated =>
            let outside := (← get).behindFrom
            if !ahead && outside.isNone then
              modify fun s => { s with behindFrom := some s.groups }
            let body ← alternatives o false fuel
            modify fun s => { s with behindFrom := outside }
            closeParen start
            branch o leading ((← lookPiece ahead negated body) :: done) fuel
          | .condition index =>
            let yes ← branch o false [] fuel
            let no ← if ← takeIf '|' then branch o false [] fuel else pure .empty
            if (← peek) == some (.plain '|') then
              refuse "conditional backref with more than two branches" 0
            closeParen start
            branch o leading (.of (.ifGroup index yes no) :: done) fuel
        else branch o leading (.char o c.toNat :: done) fuel

end

/-- Reads a whole pattern. -/
def pattern (o : RegexOptions) (fuel : Nat) : Reader Regex := do
  checkEnd
  let r ← alternatives o true fuel
  if (← peek).isSome then refuse "unbalanced parenthesis" 0
  let s ← get
  match s.references.find? fun e => s.groups ≤ e.1 with
  | some e => throw ⟨"invalid group reference " ++ toString e.1, some e.2⟩
  | none => if s.unevenBehind then throw ⟨"look-behind requires fixed-width pattern", none⟩
  return r

end RegexReader

namespace Regex

/-- Reads a pattern under the given options. -/
def ofText (o : RegexOptions) (s : String) : Except RegexFault Regex :=
  let cs := s.toList
  let start : RegexReader.Progress :=
    { rest := cs, position := 0, length := cs.length, groups := 1, closed := [], names := []
      options := o, behindFrom := none, references := [], unevenBehind := false }
  (RegexReader.pattern o (3 * cs.length + 4)).run' start

end Regex

namespace RegexFault

/-- The wording of a fault; a pattern of several lines has the line and the column too. -/
def message (f : RegexFault) (pattern : String) : String :=
  match f.position with
  | none => f.reason
  | some n =>
    let before := pattern.toList.take n
    let place := f.reason ++ " at position " ++ toString n
    if pattern.toList.contains '\n' then
      place ++ " (line " ++ toString (before.count '\n' + 1) ++ ", column " ++
        toString ((before.reverse.takeWhile (· != '\n')).length + 1) ++ ")"
    else place

end RegexFault

end RouteLens
