import RouteLens.Text.CharacterName
import RouteLens.Token.Lexer
import RouteLens.Tree.Expr

/-!
# Quoted literals

Escapes of texts and bytes, and texts with embedded expressions.  An embedded expression is cut out
of the text by counting brackets and quotes and then read as if it stood in parentheses at that
place.  Adjacent literals are joined; a run of plain pieces becomes one constant.
-/

namespace RouteLens

namespace Quoted

variable {edition : Nat} [CharacterNames edition]

/-- The escapes of one letter. -/
def simpleEscape? : Char → Option Char
  | '\\' => some '\\'
  | '\'' => some '\''
  | '"' => some '"'
  | 'a' => some '\x07'
  | 'b' => some '\x08'
  | 'f' => some '\x0c'
  | 'n' => some '\n'
  | 'r' => some '\r'
  | 't' => some '\t'
  | 'v' => some '\x0b'
  | _ => none

/-- The value of exactly `n` hexadecimal digits. -/
def hexEscape? (n : Nat) (cs : List Char) : Option Nat :=
  let digits := cs.take n
  if digits.length = n && digits.all fun c => (Text.hexDigit? c).isSome then
    some (digits.foldl (fun v c => v * 16 + (Text.hexDigit? c).getD 0) 0)
  else none

/-- An octal digit. -/
def isOctal (c : Char) : Bool :=
  '0' ≤ c && c ≤ '7'

/-- The one to three octal digits at the front. -/
def octalDigits (cs : List Char) : List Char :=
  (cs.take 3).takeWhile isOctal

/-- The value of octal digits. -/
def octalValue (cs : List Char) : Nat :=
  cs.foldl (fun v c => v * 8 + (c.toNat - '0'.toNat)) 0

/-- The character with a code point; `none` beyond the last one. -/
def charOf? (n : Nat) : Option Char :=
  if n ≤ 0x10ffff then some (Char.ofNat n) else none

/-- The character named in braces at the front, and what follows it. -/
def nameEscape? : List Char → Option (Char × List Char)
  | '\x7b' :: cs => do
    let name := cs.takeWhile (· != '\x7d')
    let rest := cs.drop name.length
    guard (!name.isEmpty && !rest.isEmpty)
    return (← CharacterNames.find? (String.ofList name), rest.drop 1)
  | _ => none

/-- Replaces the escapes of a text.  A backslash before any other character stays. -/
def unescape : Nat → List Char → Option (List Char)
  | 0, _ => none
  | _, [] => some []
  | fuel + 1, '\\' :: c :: cs =>
    if c == '\n' then unescape fuel cs
    else if c == 'x' then do
      let n ← hexEscape? 2 cs
      return Char.ofNat n :: (← unescape fuel (cs.drop 2))
    else if c == 'u' then do
      let n ← hexEscape? 4 cs
      return Char.ofNat n :: (← unescape fuel (cs.drop 4))
    else if c == 'U' then do
      let n ← (hexEscape? 8 cs).bind charOf?
      return n :: (← unescape fuel (cs.drop 8))
    else if c == 'N' then do
      let (named, rest) ← nameEscape? cs
      return named :: (← unescape fuel rest)
    else if isOctal c then
      let digits := octalDigits (c :: cs)
      (unescape fuel ((c :: cs).drop digits.length)).map (Char.ofNat (octalValue digits) :: ·)
    else
      match simpleEscape? c with
      | some e => (unescape fuel cs).map (e :: ·)
      | none => (unescape fuel cs).map fun r => '\\' :: c :: r
  | fuel + 1, c :: cs => (unescape fuel cs).map (c :: ·)

/-- The characters of a text literal. -/
def textOf? (isRaw : Bool) (body : List Char) : Option (List Char) :=
  if isRaw then some body else unescape (body.length + 1) body

/-- Replaces the escapes of a byte literal. -/
def unescapeBytes : Nat → List Char → Option (List UInt8)
  | 0, _ => none
  | _, [] => some []
  | fuel + 1, '\\' :: c :: cs =>
    let byte (c : Char) : UInt8 := c.toNat.toUInt8
    if c == '\n' then unescapeBytes fuel cs
    else if c == 'x' then do
      let n ← hexEscape? 2 cs
      return n.toUInt8 :: (← unescapeBytes fuel (cs.drop 2))
    else if isOctal c then
      let digits := octalDigits (c :: cs)
      (unescapeBytes fuel ((c :: cs).drop digits.length)).map
        ((octalValue digits % 256).toUInt8 :: ·)
    else
      match simpleEscape? c with
      | some e => (unescapeBytes fuel cs).map (byte e :: ·)
      | none => (unescapeBytes fuel cs).map fun r => byte '\\' :: byte c :: r
  | fuel + 1, c :: cs => (unescapeBytes fuel cs).map (c.toNat.toUInt8 :: ·)

/-- The bytes of a byte literal, which holds ASCII characters only. -/
def bytesOf? (isRaw : Bool) (body : List Char) : Option (List UInt8) :=
  if body.any fun c => 128 ≤ c.toNat then none
  else if isRaw then some (body.map fun c => c.toNat.toUInt8)
  else unescapeBytes (body.length + 1) body

/-- A piece of a text: plain characters or an embedded value. -/
inductive Piece where
  | plain (cs : List Char)
  | value (e : Expr)

/-- Joins neighbouring plain pieces and drops empty ones. -/
def joinPieces : List Piece → List Piece
  | [] => []
  | .value e :: ps => .value e :: joinPieces ps
  | .plain cs :: ps =>
    match joinPieces ps with
    | .plain ds :: qs => .plain (cs ++ ds) :: qs
    | qs => if cs.isEmpty then qs else .plain cs :: qs

/-- How a stretch of plain characters in a formatted text ends. -/
inductive PlainEnd where
  | text
  | doubledBrace
  | openBrace
  | closeBrace

/-- The plain characters, in reverse, before the next embedded expression.  A doubled brace ends
the stretch and counts once; doubling is only recognized outside format specifications.  The braces
around the name of a character (`inName` from the first one on) are plain. -/
def takePlain (isRaw inSpec inName : Bool) (acc : List Char) (pos : Position) :
    List Char → Option (List Char × PlainEnd × Cursor)
  | [] => some (acc, .text, ⟨[], pos⟩)
  | '\\' :: c :: cs =>
    if isRaw || inName || c == '\x7b' || c == '\x7d' then
      takePlain isRaw inSpec inName ('\\' :: acc) (Cursor.stepPosition pos '\\') (c :: cs)
    else
      takePlain isRaw inSpec (c == 'N' && cs.head? == some '\x7b') (c :: '\\' :: acc)
        (Cursor.stepPosition (Cursor.stepPosition pos '\\') c) cs
  | c :: cs =>
    if inName then
      takePlain isRaw inSpec (c != '\x7d') (c :: acc) (Cursor.stepPosition pos c) cs
    else if c == '\x7b' || c == '\x7d' then
      if !inSpec && cs.head? == some c then
        some (c :: acc, .doubledBrace, ⟨cs.drop 1, ⟨pos.line, pos.column + 2⟩⟩)
      else if c == '\x7b' then some (acc, .openBrace, ⟨c :: cs, pos⟩)
      else if inSpec then some (acc, .closeBrace, ⟨c :: cs, pos⟩)
      else none
    else takePlain isRaw inSpec false (c :: acc) (Cursor.stepPosition pos c) cs

/-- What the search for the end of an embedded expression remembers: the quote it is inside of
and whether that quote is a triple one, and the open brackets. -/
structure ExprScan where
  quote : Option (Char × Bool)
  brackets : List Char

/-- What becomes of a character of an embedded expression: it is refused, it ends the expression, or
it is passed over with some that follow it. -/
inductive ExprStep where
  | refuse
  | stop
  | pass (more : Nat) (st : ExprScan)

/-- Decides about a character, given the ones that follow it.  Backslashes and comments are
refused. -/
def exprStep (st : ExprScan) (c : Char) (cs : List Char) : ExprStep :=
  let isTriple := [c, c].isPrefixOf cs
  if c == '\\' then .refuse
  else
    match st.quote with
    | some (q, triple) =>
      if c != q then .pass 0 st
      else if !triple then .pass 0 { st with quote := none }
      else if isTriple then .pass 2 { st with quote := none }
      else .pass 0 st
    | none =>
      if c == '\'' || c == '"' then
        if isTriple then .pass 2 { st with quote := some (c, true) }
        else .pass 0 { st with quote := some (c, false) }
      else if c == '(' || c == '[' || c == '\x7b' then
        if Lexer.maxBrackets ≤ st.brackets.length then .refuse
        else .pass 0 { st with brackets := c :: st.brackets }
      else if c == '#' then .refuse
      else if st.brackets.isEmpty && ['!', ':', '\x7d', '=', '<', '>'].contains c then
        if cs.head? == some '=' && (c == '!' || c == '=' || c == '<' || c == '>') then .pass 1 st
        else if cs.head? != some '=' && (c == '<' || c == '>') then .pass 0 st
        else .stop
      else
        match Lexer.opening? c with
        | none => .pass 0 st
        | some o =>
          match st.brackets with
          | [] => .refuse
          | top :: rest => if top == o then .pass 0 { st with brackets := rest } else .refuse

/-- The characters of an embedded expression, in reverse, and the cursor at the character that
ends it; `pending` characters are passed over first. -/
def takeExpr (st : ExprScan) (pending : Nat) (acc : List Char) (pos : Position) :
    List Char → Option (List Char × Cursor)
  | [] => none
  | c :: cs =>
    match pending with
    | n + 1 => takeExpr st n (c :: acc) (Cursor.stepPosition pos c) cs
    | 0 =>
      match exprStep st c cs with
      | .refuse => none
      | .stop => some (acc, ⟨c :: cs, pos⟩)
      | .pass more st => takeExpr st more (c :: acc) (Cursor.stepPosition pos c) cs

/-- A blank that may stand between an embedded expression and what follows it. -/
def isFormatBlank (c : Char) : Bool :=
  c == ' ' || (9 ≤ c.toNat && c.toNat ≤ 13)

/-- The conversion that a letter stands for. -/
def conversion? : Char → Option Conversion
  | 's' => some .str
  | 'r' => some .repr
  | 'a' => some .ascii
  | _ => none

/-- Reads an embedded expression: the place of its opening brace and its characters. -/
abbrev Embedded := Position → List Char → Option Expr

/-- Takes the debug mark after an embedded expression, if it has one: the expression as it was
written, with the mark and the blanks around it. -/
def takeDebug (written : List Char) (k : Cursor) : Option (List Char) × Cursor :=
  match k.rest with
  | '=' :: cs =>
    let blanks := cs.takeWhile isFormatBlank
    (some (written ++ '=' :: blanks), k.skip (blanks.length + 1))
  | _ => (none, k)

/-- Takes a conversion, if there is one. -/
def takeConversion (k : Cursor) : Option (Option Conversion × Cursor) :=
  match k.rest with
  | '!' :: c :: _ => do
    let conversion ← conversion? c
    return (some conversion, k.skip 2)
  | '!' :: _ => none
  | _ => some (none, k)

/-- The expression of a plain piece or of an embedded value. -/
def Piece.toExpr (marked : Bool) (span : Span) : Piece → Expr
  | .plain cs => .node span (.constant (.text (String.ofList cs) marked))
  | .value e => e

/-- The parts of a format specification.  Its last plain part carries the place of the literal that
it stands in, the others that of the whole run of literals. -/
def specExprs (marked : Bool) (whole own : Span) : List Piece → List Expr
  | [] => []
  | [p] => [p.toExpr marked own]
  | p :: ps => p.toExpr marked whole :: specExprs marked whole own ps

/-- Takes a format specification, if there is one, given how to read its pieces. -/
def takeSpec (marked : Bool) (whole own : Span) (parts : Cursor → Option (List Piece × Cursor))
    (k : Cursor) : Option (Option Expr × Cursor) :=
  match k.rest with
  | ':' :: _ => do
    let (ps, k) ← parts k.next
    return (some (.node own (.joined (specExprs marked whole own (joinPieces ps)))), k)
  | _ => some (none, k)

/-- The pieces of an embedded value, given how to take its format specification.  The cursor stands
at the opening brace, and goes behind the closing one. -/
def valuePieces (embedded : Embedded) (spec : Cursor → Option (Option Expr × Cursor))
    (whole : Span) (k : Cursor) : Option (List Piece × Cursor) := do
  let brace := k.pos
  let k := k.next
  let (written, k) ← takeExpr ⟨none, []⟩ 0 [] k.pos k.rest
  let value ← embedded brace written.reverse
  let (debug, k) := takeDebug written.reverse k
  let (conversion, k) ← takeConversion k
  let (spec, k) ← spec k
  guard (k.rest.head? == some '\x7d')
  let conversion := match debug, spec, conversion with
    | some _, none, none => some .repr
    | _, _, c => c
  let item := Expr.node whole (.formatted value conversion spec)
  return ([.plain (debug.getD []), .value item], k.next)

/-- The pieces of a formatted text up to its end or, in a format specification, up to the closing
brace.  Expressions nest in specifications one level deep. -/
def pieces (embedded : Embedded) (marked isRaw : Bool) (whole own : Span) :
    Nat → Nat → Cursor → Option (List Piece × Cursor)
  | 0, _, _ => none
  | fuel + 1, level, k => do
    let (plain, ending, k) ← takePlain isRaw (0 < level) false [] k.pos k.rest
    let plain ← textOf? isRaw plain.reverse
    match ending with
    | .text => if level = 0 then return ([.plain plain], k) else none
    | .closeBrace => return ([.plain plain], k)
    | .doubledBrace =>
      let (rest, k) ← pieces embedded marked isRaw whole own fuel level k
      return (.plain plain :: rest, k)
    | .openBrace =>
      guard (level < 2)
      let spec := takeSpec marked whole own
        (pieces embedded marked isRaw whole own fuel (level + 1))
      let (item, k) ← valuePieces embedded spec whole k
      let (rest, k) ← pieces embedded marked isRaw whole own fuel level k
      return (.plain plain :: item ++ rest, k)

/-- The pieces of one text literal. -/
def piecesOf (embedded : Embedded) (marked : Bool) (whole : Span) (piece : TextPiece) (own : Span) :
    Option (List Piece) :=
  if piece.isFormatted then
    (pieces embedded marked piece.isRaw whole own (piece.body.length + 2) 0
      ⟨piece.body, piece.bodyStart⟩).map Prod.fst
  else (textOf? piece.isRaw piece.body).map fun cs => [.plain cs]

/-- The expression of adjacent literals.  Bytes and text do not mix. -/
def concatenate (embedded : Embedded) (whole : Span) (items : List (TextPiece × Span)) :
    Option Expr := do
  let (first, _) ← items.head?
  let marked := first.marked
  if items.all fun i => i.1.isBytes then
    let parts ← items.mapM fun i => bytesOf? i.1.isRaw i.1.body
    return .node whole (.constant (.bytes parts.flatten))
  guard (items.all fun i => !i.1.isBytes)
  let parts ← items.mapM fun i => piecesOf embedded marked whole i.1 i.2
  let joined := joinPieces parts.flatten
  if items.any fun i => i.1.isFormatted then
    return .node whole (.joined (joined.map (·.toExpr marked whole)))
  match joined with
  | [.plain cs] => return .node whole (.constant (.text (String.ofList cs) marked))
  | _ => return .node whole (.constant (.text "" marked))

end Quoted

end RouteLens
