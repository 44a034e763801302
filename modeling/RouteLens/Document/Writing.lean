import RouteLens.Document.Lexeme
import RouteLens.Document.Scalar

/-!
# Writing a document

Values as blocks, two columns to a level, with lines folded after eighty columns.  A text is
written plain where it reads back as that text, else between single quotes, and between double
quotes where it holds what the others cannot show.
-/

namespace RouteLens.Document

variable {edition : Nat} [CharacterNames edition]

/-! ## The pen -/

/-- What has been written, and where the pen stands.  `spaced` says that a blank or a line start
comes before, and `fresh` that the line so far holds only marks of structure. -/
structure Pen where
  out : String := ""
  column : Nat := 0
  spaced : Bool := true
  fresh : Bool := true

namespace Pen

/-- The column after which a line is folded. -/
def width : Nat := 80

/-- Writes a text. -/
def put (p : Pen) (s : String) : Pen :=
  { p with out := p.out ++ s, column := p.column + s.length }

/-- Ends the line. -/
def newLine (p : Pen) (c : Char) : Pen :=
  { out := p.out.push c, column := 0, spaced := true, fresh := true }

/-- Goes to a column, on a new line if need be. -/
def goTo (p : Pen) (indent : Nat) : Pen :=
  let p := if !p.fresh || p.column > indent || (p.column == indent && !p.spaced) then p.newLine '\n'
    else p
  if p.column < indent then
    { p.put (String.ofList (List.replicate (indent - p.column) ' ')) with spaced := true }
  else p

/-- Writes a mark, after a blank if `apart` asks for one. -/
def mark (p : Pen) (s : String) (apart : Bool) (structural : Bool := false) : Pen :=
  let p := { p with fresh := p.fresh && structural }
  { p.put (if p.spaced || !apart then s else " " ++ s) with spaced := false }

end Pen

/-! ## What a text looks like -/

/-- What is to be known of a text before it is written. -/
structure Traits where
  multiline : Bool
  plain : Bool
  single : Bool
  block : Bool

/-- Whether a character is a line break that can be written as one. -/
def isWrittenBreak (c : Char) : Bool :=
  c == '\n' || c == '\x85' || c == '\u2028' || c == '\u2029'

/-- Whether a character can only be written as an escape. -/
def isSpecial (c : Char) : Bool :=
  let n := c.toNat
  !(n == 10 || (0x20 ≤ n && n ≤ 0x7e) || n == 0x85 || (0xa0 ≤ n && n ≤ 0xd7ff) ||
    (0xe000 ≤ n && n ≤ 0xfffd && n != 0xfeff) || (0x10000 ≤ n && n < 0x10ffff))

/-- Whether the first character of a text keeps it from being plain. -/
def startsMarked (cs : List Char) : Bool :=
  match cs with
  | [] => false
  | c :: rest =>
    "#,[]\x7b\x7d&*!|>'\"%@\x60".toList.contains c ||
      ((c == '?' || c == ':' || c == '-') && endsWord rest.head?) ||
      ['-', '-', '-'].isPrefixOf cs || ['.', '.', '.'].isPrefixOf cs

/-- Whether a mark inside a text keeps it from being plain: a colon before a blank, or a number
sign after one. -/
def holdsMark : List Char → Bool
  | a :: b :: rest =>
    (b == ':' && endsWord rest.head?) || (b == '#' && isSpace a) || holdsMark (b :: rest)
  | _ => false

/-- Whether two characters in a row satisfy two predicates. -/
def hasPair (p q : Char → Bool) : List Char → Bool
  | a :: b :: rest => (p a && q b) || hasPair p q (b :: rest)
  | _ => false

/-- The traits of a text. -/
def traitsOf (cs : List Char) : Traits :=
  if cs.isEmpty then ⟨false, true, true, false⟩ else
  let blank (c : Char) : Bool := c == ' '
  let edge (c : Char) : Bool := blank c || isWrittenBreak c
  let multiline := cs.any isWrittenBreak
  let hard := cs.any isSpecial || hasPair blank isWrittenBreak cs
  let indented := hasPair isWrittenBreak blank cs
  { multiline
    plain := !(multiline || hard || indented || cs.head?.any edge || cs.getLast?.any edge ||
      startsMarked cs || holdsMark cs)
    single := !(hard || indented)
    block := !(hard || cs.getLast?.any blank) }

/-! ## Scalars -/

/-- Writes a line break inside a text. -/
def putBreaks (p : Pen) (cs : List Char) : Pen :=
  cs.foldl (fun p c => p.newLine c) p

/-- The next run of a text: blanks, line breaks, or other characters. -/
def nextRun (cs : List Char) : List Char :=
  match cs with
  | [] => []
  | c :: _ =>
    if c == ' ' then cs.takeWhile (· == ' ')
    else if isWrittenBreak c then cs.takeWhile isWrittenBreak
    else cs.takeWhile fun d => !(d == ' ' || isWrittenBreak d)

/-- Writes a plain text run by run.  A single blank beyond the width becomes a line break. -/
def putPlain (split : Bool) (indent : Nat) (p : Pen) : Nat → List Char → Pen
  | 0, _ => p
  | _, [] => p
  | n + 1, cs =>
    let run := nextRun cs
    let p :=
      if run == [' '] && p.column > Pen.width && split then
        { p.goTo indent with spaced := false, fresh := false }
      else p.put (String.ofList run)
    putPlain split indent p n (cs.drop run.length)

/-- Doubles the single quotes. -/
def doubleQuotes (cs : List Char) : List Char :=
  cs.flatMap fun c => if c == '\'' then ['\'', '\''] else [c]

/-- Writes a text for single quotes run by run.  A blank at either end stays one. -/
def putSingle (split : Bool) (indent : Nat) (first : Bool) (p : Pen) : Nat → List Char → Pen
  | 0, _ => p
  | _, [] => p
  | n + 1, cs =>
    let run := nextRun cs
    let rest := cs.drop run.length
    let p :=
      if run == [' '] && p.column > Pen.width && split && !first && !rest.isEmpty then p.goTo indent
      else if run.any isWrittenBreak then
        let p := if run.head? == some '\n' then p.newLine '\n' else p
        (putBreaks p run).goTo indent
      else p.put (String.ofList (doubleQuotes run))
    putSingle split indent false p n rest

/-- The letters of the escapes in double quotes. -/
def escapeLetters : List (Char × Char) :=
  [('\x00', '0'), ('\x07', 'a'), ('\x08', 'b'), ('\t', 't'), ('\n', 'n'), ('\x0b', 'v'),
   ('\x0c', 'f'), ('\r', 'r'), ('\x1b', 'e'), ('"', '"'), ('\\', '\\'), ('\x85', 'N'),
   ('\xa0', '_'), ('\u2028', 'L'), ('\u2029', 'P')]

/-- Whether a character is written as an escape in double quotes. -/
def isEscaped (c : Char) : Bool :=
  let n := c.toNat
  c == '"' || c == '\\' || c == '\u2028' || c == '\u2029' || c == '\ufeff' ||
    !((0x20 ≤ n && n ≤ 0x7e) || (0xa0 ≤ n && n ≤ 0xd7ff) || (0xe000 ≤ n && n ≤ 0xfffd))

/-- The escape of a character. -/
def escapeOf (c : Char) : List Char :=
  let n := c.toNat
  match escapeLetters.lookup c with
  | some letter => ['\\', letter]
  | none =>
    '\\' :: (if n ≤ 0xff then 'x' :: Text.hexDigits n 2
      else if n ≤ 0xffff then 'u' :: Text.hexDigits n 4
      else 'U' :: Text.hexDigits n 8).map fun d => if 'a' ≤ d && d ≤ 'f' then d.toUpper else d

/-- Writes a text for double quotes.  `waiting` holds what has not been written yet.  Beyond the
width the line is broken before a blank or next to an escape. -/
def putDouble (split : Bool) (indent : Nat) (first : Bool) (waiting : List Char) (p : Pen) :
    List Char → Pen
  | [] => p.put (String.ofList waiting)
  | c :: rest =>
    let escaped := isEscaped c
    let p := if escaped then p.put (String.ofList (waiting ++ escapeOf c)) else p
    let waiting := if escaped then [] else waiting
    let reach := if escaped then p.column - 1 else p.column + waiting.length
    if !first && !rest.isEmpty && (c == ' ' || waiting.isEmpty) && reach > Pen.width && split then
      let p := { (p.put (String.ofList (waiting ++ ['\\']))).goTo indent with
        spaced := false, fresh := false }
      let next := if escaped then rest.head? else some c
      let p := if next == some ' ' then p.put "\\" else p
      putDouble split indent false (if escaped then [] else [c]) p rest
    else putDouble split indent false (if escaped then [] else waiting ++ [c]) p rest

/-- The marks of a block scalar: its indentation if it starts with a blank, and what becomes of its
last line breaks. -/
def blockHints (cs : List Char) : String :=
  (if cs.head?.any (fun c => c == ' ' || isWrittenBreak c) then "2" else "") ++
    (match cs.reverse with
    | [] => ""
    | last :: before =>
      if !isWrittenBreak last then "-"
      else if before.head?.all isWrittenBreak then "+"
      else "")

/-- Writes the lines of a block scalar. -/
def putLines (indent : Nat) (p : Pen) : Nat → List Char → Pen
  | 0, _ => p
  | _, [] => p
  | n + 1, cs =>
    let breaks := cs.takeWhile isWrittenBreak
    let rest := cs.drop breaks.length
    let line := rest.takeWhile fun c => !isWrittenBreak c
    let p := putBreaks p breaks
    if rest.isEmpty then p
    else
      let p := (p.goTo indent).put (String.ofList line)
      let tail := rest.drop line.length
      if tail.isEmpty then p.newLine '\n' else putLines indent p n tail

/-- How a scalar is written. -/
inductive Style where
  | plain
  | single
  | double
  | block
  deriving DecidableEq

/-- A scalar with its tag, and whether a block suits it best. -/
structure Written where
  tag : Tag
  text : List Char
  asBlock : Bool := false

namespace Written

/-- The style of a scalar.  A key on the line of its value is neither empty plain nor over several
lines. -/
def style (w : Written) (keyOnLine : Bool) : Style :=
  let t := traitsOf w.text
  if w.asBlock then if !keyOnLine && t.block then .block else .double
  else if Scalar.tagOf (String.ofList w.text) = w.tag &&
      !(keyOnLine && (w.text.isEmpty || t.multiline)) && t.plain then .plain
  else if t.single && !(keyOnLine && t.multiline) then .single
  else .double

/-- The tag of a scalar, as it is written. -/
def tagText (w : Written) : String :=
  "!!" ++ ((Tag.names.find? fun n => n.2 = w.tag).map Prod.fst).getD ""

/-- Whether a scalar can be a key on the line of its value. -/
def isShortKey (w : Written) : Bool :=
  w.tagText.length + w.text.length < 128 && !w.text.isEmpty && !(traitsOf w.text).multiline

/-- Writes a scalar with the pen. -/
def put (w : Written) (indent : Nat) (keyOnLine : Bool) (p : Pen) : Pen :=
  let split := !keyOnLine
  let style := w.style keyOnLine
  let p := if style != .plain && w.tag != .text then p.mark w.tagText true else p
  match style with
  | .plain =>
    if w.text.isEmpty then p
    else
      let p := if p.spaced then p else p.put " "
      putPlain split indent { p with spaced := false, fresh := false } w.text.length w.text
  | .single => (putSingle split indent true (p.mark "'" true) w.text.length w.text).mark "'" false
  | .double => (putDouble split indent true [] (p.mark "\"" true) w.text).mark "\"" false
  | .block =>
    putLines indent ((p.mark ("|" ++ blockHints w.text) true).newLine '\n') w.text.length w.text

end Written

/-- A floating-point number; one with an exponent has a point too. -/
def floatText : Binary64 → String
  | .nan => ".nan"
  | .infinite negative => if negative then "-.inf" else ".inf"
  | x =>
    let s := x.toText
    if s.contains '.' || !s.contains 'e' then s
    else Text.joinWith ".0e" (Text.split 'e' s)

/-- Lines of at most seventy-six characters, each with its end. -/
def binaryLines : Nat → List Char → List Char
  | 0, _ => []
  | _, [] => []
  | n + 1, cs => cs.take 76 ++ '\n' :: binaryLines n (cs.drop 76)

/-- Bytes as text. -/
def binaryText (bs : List UInt8) : List Char :=
  let cs := Base64.encode bs
  binaryLines cs.length cs

/-- A value that is written as a scalar. -/
def written? : Value → Option Written
  | .null => some ⟨.null, "null".toList, false⟩
  | .bool b => some ⟨.bool, (if b then "true" else "false").toList, false⟩
  | .int n => some ⟨.int, (toString n).toList, false⟩
  | .float x => some ⟨.float, (floatText x).toList, false⟩
  | .text s => some ⟨.text, s.toList, false⟩
  | .bytes bs => some ⟨.binary, binaryText bs, true⟩
  | .date iso => some ⟨.timestamp, iso.toList, false⟩
  | _ => none

/-! ## Collections -/

/-- The indentation of a block inside another. -/
def deeper : Option Nat → Nat
  | none => 0
  | some n => n + 2

/-- The indentation of the lines of a scalar. -/
def scalarIndent : Option Nat → Nat
  | none => 2
  | some n => n + 2

/-- Writes a scalar; a value that is none is refused. -/
def putScalar (indent : Option Nat) (keyOnLine : Bool) (v : Value) (p : Pen) : Except Fault Pen :=
  match written? v with
  | some w => .ok (w.put (scalarIndent indent) keyOnLine p)
  | none => .error .badDocument

/-- Whether a value can be a key on the line of its value. -/
def isShortKey (v : Value) : Bool :=
  (written? v).any Written.isShortKey

mutual

/-- Writes a value.  `inMapping` says that it belongs to an entry. -/
def putValue (indent : Option Nat) (inMapping : Bool) (p : Pen) : Value → Except Fault Pen
  | .list [] => .ok ((p.mark "[" true).mark "]" false)
  | .list (v :: vs) =>
    let own := if inMapping && !p.fresh then indent.getD 0 else deeper indent
    putItems own p (v :: vs)
  | .dict [] => .ok ((p.mark "\x7b" true).mark "\x7d" false)
  | .dict (e :: es) => putEntries (deeper indent) p (e :: es)
  | .null => putScalar indent false .null p
  | .bool b => putScalar indent false (.bool b) p
  | .int n => putScalar indent false (.int n) p
  | .float x => putScalar indent false (.float x) p
  | .text s => putScalar indent false (.text s) p
  | .bytes bs => putScalar indent false (.bytes bs) p
  | .date iso => putScalar indent false (.date iso) p
  | .complex _ _ => .error .badDocument
  | .ellipsis => .error .badDocument
  | .missing => .error .badDocument

/-- Writes the items of a sequence. -/
def putItems (indent : Nat) (p : Pen) : List Value → Except Fault Pen
  | [] => .ok p
  | v :: vs => do
    let p ← putValue (some indent) false ((p.goTo indent).mark "-" true true) v
    putItems indent p vs

/-- Writes the entries of a mapping. -/
def putEntries (indent : Nat) (p : Pen) : List (Value × Value) → Except Fault Pen
  | [] => .ok p
  | (k, v) :: es => do
    let p := p.goTo indent
    let p ←
      if isShortKey k then do
        let p ← putScalar (some indent) true k p
        pure (p.mark ":" false)
      else do
        let p ← putScalar (some indent) false k (p.mark "?" true true)
        pure ((p.goTo indent).mark ":" true true)
    let p ← putValue (some indent) true p v
    putEntries indent p es

end

/-- A value as a document.  A value that a document has no form for is refused. -/
def write (v : Value) : Except Fault String := do
  let p ← putValue none false {} v
  return (p.goTo 0).out

end RouteLens.Document
