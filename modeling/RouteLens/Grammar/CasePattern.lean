import RouteLens.Grammar.Expression
import RouteLens.Tree.Stmt

/-!
# Reading `case` patterns

Patterns nest in each other; `pattern` ties the knot the same way as for expressions.
-/

namespace RouteLens

variable {edition : Nat} [CharacterNames edition]

namespace Grammar

open Reader

/-- A pattern over the stretch from a place to the last token taken. -/
def patternFrom (start : Position) (form : PatternForm) : Reader Pattern := do
  return .node (← spanFrom start) form

/-- A number with an optional minus. -/
def signedNumber : Reader Expr := do
  let start ← here
  let negative ← tryOp "-"
  match ← peek with
  | .number c =>
    let e := leaf (← take) (.constant c.toConstant)
    if negative then nodeFrom start (.unary .minus e) else return e
  | _ => failure

/-- Whether a number is imaginary. -/
def isImaginary : Expr → Bool
  | .node _ (.constant (.imaginary _)) => true
  | .node _ (.unary _ (.node _ (.constant (.imaginary _)))) => true
  | _ => false

/-- A number, or a sum of a real and an imaginary number. -/
def numberExpr : Reader Expr := do
  let start ← here
  let left ← signedNumber
  let op? := match ← peek with
    | .op "+" => some BinaryOp.add
    | .op "-" => some BinaryOp.sub
    | _ => none
  match op? with
  | none => return left
  | some op =>
    let _ ← take
    guard !(isImaginary left)
    match ← peek with
    | .number c =>
      let right := leaf (← take) (.constant c.toConstant)
      guard (isImaginary right)
      nodeFrom start (.binary left op right)
    | _ => failure

/-- A name that a pattern binds; the underscore is none. -/
def captureTarget : Reader String := do
  let id ← name
  guard (id != "_")
  match ← peek with
  | .op "." | .op "(" | .op "=" => failure
  | _ => return id

/-- A name with attribute accesses; the second result says whether there was one. -/
def dottedExpr (n : Nesting) : Reader (Expr × Bool) := do
  let rec go (e : Expr) (dotted : Bool) : Nat → Reader (Expr × Bool)
    | 0 => failure
    | fuel + 1 => do
      if ← tryOp "." then
        let id ← name
        go (← nodeFrom e.span.start (.attribute e id)) true fuel
      else return (e, dotted)
  let l ← take
  match l.token with
  | .name id => go (leaf l (.name id)) false n.fuel
  | _ => failure

/-- Whether a pattern is starred. -/
def isStarPattern : Pattern → Bool
  | .node _ (.star _) => true
  | _ => false

/-- Whether a pattern can start with the token. -/
def startsPattern : Token → Bool
  | .name _ | .number _ | .text _ => true
  | .keyword w => ["None", "True", "False"].contains w
  | .op o => ["-", "(", "[", "\x7b", "*"].contains o
  | _ => false

section

variable (n : Nesting) (pattern : Reader Pattern)

/-- A pattern that may be starred. -/
def starPattern : Reader Pattern := do
  let start ← here
  if ← tryOp "*" then
    match ← peek with
    | .name "_" =>
      let _ ← take
      patternFrom start (.star none)
    | _ =>
      let id ← captureTarget
      patternFrom start (.star (some id))
  else pattern

/-- Patterns divided by commas up to a closing token, which is taken. -/
def patternList (close : String) : Reader (List Pattern × Bool) := do
  if ← tryOp close then return ([], false)
  let (ps, trailing) ← commaList (starPattern pattern) startsPattern n.fuel
  op close
  return (ps, trailing)

/-- A key of a mapping pattern. -/
def mappingKey : Reader Expr := do
  match ← peek with
  | .number _ | .op "-" => numberExpr
  | .text _ => quoted n (bitwiseOr n)
  | .keyword "None" => return leaf (← take) (.constant .null)
  | .keyword "True" => return leaf (← take) (.constant (.bool true))
  | .keyword "False" => return leaf (← take) (.constant (.bool false))
  | _ =>
    let (e, dotted) ← dottedExpr n
    guard dotted
    return e

/-- The entries of a mapping pattern up to the closing brace. -/
def mappingEntries : Nat → Reader (List (Expr × Pattern) × Option String)
  | 0 => failure
  | fuel + 1 => do
    if ← tryOp "\x7d" then return ([], none)
    if ← tryOp "**" then
      let id ← captureTarget
      let _ ← tryOp ","
      op "\x7d"
      return ([], some id)
    let key ← mappingKey n
    op ":"
    let value ← pattern
    if !(← atOp "\x7d") then op ","
    let (entries, rest) ← mappingEntries fuel
    return ((key, value) :: entries, rest)

/-- The arguments of a class pattern up to the closing parenthesis: patterns by position, then by
name. -/
def classArgs (sawName : Bool) : Nat → Reader (List Pattern × List (String × Pattern))
  | 0 => failure
  | fuel + 1 => do
    if ← tryOp ")" then return ([], [])
    match ← peek, ← peekSecond with
    | .name id, .op "=" =>
      let _ ← take
      let _ ← take
      let p ← pattern
      if !(← atOp ")") then op ","
      let (ps, named) ← classArgs true fuel
      return (ps, (id, p) :: named)
    | _, _ =>
      guard !sawName
      let p ← pattern
      if !(← atOp ")") then op ","
      let (ps, named) ← classArgs false fuel
      return (p :: ps, named)

/-- A pattern without `|` and `as`. -/
def closedPattern : Reader Pattern := do
  let start ← here
  match ← peek with
  | .number _ | .op "-" => patternFrom start (.value (← numberExpr))
  | .text _ =>
    let e ← quoted n (bitwiseOr n)
    patternFrom start (.value e)
  | .keyword "None" =>
    let _ ← take
    patternFrom start (.singleton .null)
  | .keyword "True" =>
    let _ ← take
    patternFrom start (.singleton (.bool true))
  | .keyword "False" =>
    let _ ← take
    patternFrom start (.singleton (.bool false))
  | .name "_" =>
    let _ ← take
    patternFrom start (.capture none none)
  | .name _ =>
    match ← peekSecond with
    | .op "." | .op "(" =>
      let (e, dotted) ← dottedExpr n
      if ← tryOp "(" then
        let (ps, named) ← classArgs pattern false n.fuel
        patternFrom start (.record e ps (named.map Prod.fst) (named.map Prod.snd))
      else
        guard dotted
        guard !(← atOp "=")
        patternFrom start (.value e)
    | _ =>
      let id ← captureTarget
      patternFrom start (.capture none (some id))
  | .op "(" =>
    let _ ← take
    let (ps, trailing) ← patternList n pattern ")"
    match ps, trailing with
    | [p], false =>
      guard !(isStarPattern p)
      return p
    | _, _ => patternFrom start (.sequence ps)
  | .op "[" =>
    let _ ← take
    let (ps, _) ← patternList n pattern "]"
    patternFrom start (.sequence ps)
  | .op "\x7b" =>
    let _ ← take
    let (entries, rest) ← mappingEntries n pattern n.fuel
    patternFrom start (.mapping (entries.map Prod.fst) (entries.map Prod.snd) rest)
  | _ => failure

/-- Alternatives, with an optional name for the whole. -/
def patternWith : Reader Pattern := do
  let start ← here
  let first ← closedPattern n pattern
  let rest ← collect (do
    if ← tryOp "|" then return some (← closedPattern n pattern)
    return none) n.fuel
  let p ← if rest.isEmpty then pure first else patternFrom start (.either (first :: rest))
  if ← tryWord "as" then
    let id ← captureTarget
    patternFrom start (.capture (some p) (some id))
  else return p

end

/-- Reads a pattern. -/
def pattern (n : Nesting) : Nat → Reader Pattern
  | 0 => failure
  | fuel + 1 => fun s => patternWith n (fun s => pattern n fuel s) s

/-- The pattern of a `case`, where a sequence needs no brackets. -/
def casePattern (n : Nesting) : Reader Pattern := do
  let start ← here
  let one : Reader Pattern := pattern n n.fuel
  let (ps, trailing) ← commaList (starPattern one) startsPattern n.fuel
  match ps, trailing with
  | [p], false =>
    guard !(isStarPattern p)
    return p
  | _, _ => patternFrom start (.sequence ps)

end Grammar

end RouteLens
