import RouteLens.Grammar.Quoted
import RouteLens.Grammar.Reader

/-!
# Reading expressions

Recursive descent over tokens.  Each function reads one level of the grammar; the level that nests
(a full expression) is handed to it in a `Nesting`, which also bounds the number of rounds of every
loop.  `expression` ties the knot: it descends one step for every level of nesting, and each such
level takes a token, so a bound of the size of the text is never met.
-/

namespace RouteLens

variable {edition : Nat} [CharacterNames edition]

/-- How to read a nested expression, and a bound for loops. -/
structure Nesting where
  fuel : Nat
  expression : Reader Expr

namespace Grammar

open Reader

/-- Whether an expression can start with the token; a star may stand before it where `starred`
says so. -/
def startsExpr (starred : Bool) : Token → Bool
  | .name _ => true
  | .number _ => true
  | .text _ => true
  | .keyword w => ["None", "True", "False", "not", "lambda", "await"].contains w
  | .op o => ["(", "[", "\x7b", "-", "+", "~", "..."].contains o || (starred && o == "*")
  | _ => false

/-- Whether the token is a name. -/
def isName : Token → Bool
  | .name _ => true
  | _ => false

/-- A node over the stretch from a place to the last token taken. -/
def nodeFrom (start : Position) (form : ExprForm) : Reader Expr := do
  return .node (← spanFrom start) form

/-- A node over the stretch of one token. -/
def leaf (l : Lexeme) (form : ExprForm) : Expr :=
  .node l.span form

/-- Left-associative binary operators of one level. -/
def leftAssoc (ops : List (String × BinaryOp)) (operand : Reader Expr) (n : Nesting) :
    Reader Expr := do
  let start ← here
  let rec go (left : Expr) : Nat → Reader Expr
    | 0 => failure
    | fuel + 1 => do
      let found := match ← peek with
        | .op o => ops.lookup o
        | _ => none
      match found with
      | none => return left
      | some op =>
        let _ ← take
        let right ← operand
        go (← nodeFrom start (.binary left op right)) fuel
  go (← operand) n.fuel

/-- An assignment expression, if a name and `:=` are next. -/
def walrus? (n : Nesting) : Reader (Option Expr) := do
  match ← peek, ← peekSecond with
  | .name id, .op ":=" =>
    let l ← take
    let _ ← take
    let value ← n.expression
    return some (← nodeFrom l.span.start (.named (leaf l (.name id)) value))
  | _, _ => return none

/-- An expression that may be an assignment expression. -/
def namedExpr (n : Nesting) : Reader Expr := do
  match ← walrus? n with
  | some e => return e
  | none => n.expression

/-- The fields of parameters while they are read. -/
structure ParamDraft where
  posOnly : List Param := []
  args : List Param := []
  defaults : List Expr := []
  vararg : Option Param := none
  kwOnly : List Param := []
  kwDefaults : List (Option Expr) := []
  kwarg : Option Param := none
  sawSlash : Bool := false
  sawStar : Bool := false

namespace ParamDraft

/-- The finished parameters. -/
def toParams (d : ParamDraft) : Params :=
  .mk d.posOnly d.args d.vararg d.kwOnly d.kwDefaults d.kwarg d.defaults

end ParamDraft

/-- One parameter; types are read where `typed` says so. -/
def param (typed starTyped : Bool) (n : Nesting) (unpacked : Reader Expr) : Reader Param := do
  let start ← here
  let id ← name
  let typeExpr ← if typed && (← atOp ":") then do
      let _ ← take
      if starTyped && (← atOp "*") then pure (some (← unpacked))
      else pure (some (← n.expression))
    else pure none
  return .mk (← spanFrom start) id typeExpr

/-- A comma, unless the closing token is next. -/
def separator (close : String) : Reader Unit := do
  if !(← atOp close) then op ","

/-- Parameters up to the closing token `close`.  Parameters without default may not follow ones
with a default before the star, and a bare star needs a parameter behind it. -/
def params (typed : Bool) (close : String) (n : Nesting) (unpacked : Reader Expr) :
    Reader Params := do
  let rec go (d : ParamDraft) : Nat → Reader ParamDraft
    | 0 => failure
    | fuel + 1 => do
      if ← atOp close then return d
      if ← tryOp "/" then
        guard (!d.sawSlash && !d.sawStar && !d.args.isEmpty)
        separator close
        go { d with posOnly := d.args, args := [], sawSlash := true } fuel
      else if ← tryOp "**" then
        let p ← param typed false n unpacked
        let _ ← tryOp ","
        guard (← atOp close)
        return { d with kwarg := some p }
      else if ← tryOp "*" then
        guard (!d.sawStar)
        if ← tryOp "," then
          guard (isName (← peek))
          go { d with sawStar := true } fuel
        else
          let p ← param typed true n unpacked
          separator close
          go { d with vararg := some p, sawStar := true } fuel
      else
        let p ← param typed false n unpacked
        let value ← if ← tryOp "=" then pure (some (← n.expression)) else pure none
        separator close
        if d.sawStar then
          go { d with kwOnly := d.kwOnly ++ [p], kwDefaults := d.kwDefaults ++ [value] } fuel
        else
          guard (value.isSome || d.defaults.isEmpty)
          go { d with args := d.args ++ [p], defaults := d.defaults ++ value.toList } fuel
  return (← go {} n.fuel).toParams

/-- Whether an expression can be assigned to.  A star is allowed among the parts of a tuple or
list where `starred` says so. -/
def isTarget (starred : Bool) : Nat → Expr → Bool
  | 0, _ => false
  | fuel + 1, .node _ form =>
    match form with
    | .name _ => true
    | .attribute _ _ => true
    | .subscript _ _ => true
    | .tuple es => es.all (isTargetPart fuel)
    | .list es => es.all (isTargetPart fuel)
    | _ => false
where
  /-- A part of a tuple or list that is assigned to. -/
  isTargetPart : Nat → Expr → Bool
    | 0, _ => false
    | fuel + 1, .node span form =>
      match form with
      | .starred (.node s f) =>
        starred && (match f with | .starred _ => false | _ => true) &&
          isTarget starred fuel (.node s f)
      | _ => isTarget starred fuel (.node span form)

/-- Whether an expression is a single target: a name, an attribute or a subscription. -/
def isSingleTarget : Expr → Bool
  | .node _ (.name _) => true
  | .node _ (.attribute _ _) => true
  | .node _ (.subscript _ _) => true
  | _ => false

/-- The upper bound or the step of a slice, if there is one. -/
def sliceBound? (n : Nesting) : Reader (Option Expr) := do
  if startsExpr false (← peek) then return some (← n.expression)
  return none

/-- A slice after its lower bound. -/
def sliceFrom (n : Nesting) (start : Position) (lower : Option Expr) : Reader Expr := do
  op ":"
  let upper ← sliceBound? n
  let step ← if ← tryOp ":" then sliceBound? n else pure none
  nodeFrom start (.slice lower upper step)

/-- A slice, or a plain index. -/
def sliceItem (n : Nesting) : Reader Expr := do
  let start ← here
  if ← atOp ":" then sliceFrom n start none
  else
    match ← walrus? n with
    | some e => return e
    | none =>
      let e ← n.expression
      if ← atOp ":" then sliceFrom n start (some e) else return e

/-- A starred expression whose operand is a full expression. -/
def starredExpr (n : Nesting) : Reader Expr := do
  let start ← here
  op "*"
  nodeFrom start (.starred (← n.expression))

/-- A slice, a plain index or a starred expression. -/
def sliceOrStarred (n : Nesting) : Reader Expr := do
  if ← atOp "*" then starredExpr n else sliceItem n

/-- Whether an item of a subscription can start with the token. -/
def startsSlice (t : Token) : Bool :=
  startsExpr true t || (match t with | .op ":" => true | _ => false)

/-- What stands between the brackets of a subscription. -/
def slices (n : Nesting) : Reader Expr := do
  let start ← here
  let (items, trailing) ← commaList (sliceOrStarred n) startsSlice n.fuel
  match items, trailing with
  | [.node span form], false =>
    match form with
    | .starred _ => nodeFrom start (.tuple items)
    | _ => return .node span form
  | _, _ => nodeFrom start (.tuple items)

/-- Whether a comprehension clause is next. -/
def atClause : Reader Bool := do
  return (← atWord "for") || (← atWord "async")

/-- The arguments of a call while they are read. -/
structure ArgDraft where
  args : List Expr := []
  keywords : List Keyword := []

/-- Which arguments may still follow: any, none by position after a keyword, and no starred one
after an unpacked mapping. -/
inductive ArgPhase where
  | any
  | keyword
  | mapping
  deriving DecidableEq

/-- One argument and the comma behind it. -/
def argument (n : Nesting) (phase : ArgPhase) (d : ArgDraft) : Reader (ArgPhase × ArgDraft) := do
  let start ← here
  match ← peek, ← peekSecond with
  | .op "**", _ =>
    let _ ← take
    let value ← n.expression
    let k := Keyword.mk (← spanFrom start) none value
    separator ")"
    return (.mapping, { d with keywords := d.keywords ++ [k] })
  | .op "*", _ =>
    guard (phase != .mapping)
    let e ← starredExpr n
    separator ")"
    return (phase, { d with args := d.args ++ [e] })
  | .name id, .op "=" =>
    let _ ← take
    let _ ← take
    let value ← n.expression
    let k := Keyword.mk (← spanFrom start) (some id) value
    separator ")"
    let phase := if phase == .mapping then .mapping else .keyword
    return (phase, { d with keywords := d.keywords ++ [k] })
  | _, _ =>
    guard (phase == .any)
    let e ← namedExpr n
    separator ")"
    return (phase, { d with args := d.args ++ [e] })

/-- More arguments, up to the closing parenthesis, which is not taken. -/
def arguments (n : Nesting) (phase : ArgPhase) (d : ArgDraft) : Nat → Reader ArgDraft
  | 0 => failure
  | fuel + 1 => do
    if ← atOp ")" then return d
    let (phase, d) ← argument n phase d
    arguments n phase d fuel

/-- An operand behind a word, if the word is next. -/
def operandAfter? (w : String) (operand : Reader Expr) : Reader (Option Expr) := do
  if ← tryWord w then return some (← operand)
  return none

section Primary

variable (n : Nesting) (bitwiseOr disjunction : Reader Expr)

/-- An element that may be starred or an assignment expression. -/
def starNamedExpr : Reader Expr := do
  let start ← here
  if ← tryOp "*" then
    nodeFrom start (.starred (← bitwiseOr))
  else namedExpr n

/-- An expression that may be starred. -/
def starExpr : Reader Expr := do
  let start ← here
  if ← tryOp "*" then
    nodeFrom start (.starred (← bitwiseOr))
  else n.expression

/-- One or more expressions that may be starred; a comma makes a tuple. -/
def starExprs : Reader Expr := do
  let start ← here
  let (items, trailing) ← commaList (starExpr n bitwiseOr) (startsExpr true) n.fuel
  match items, trailing with
  | [e], false => return e
  | _, _ => nodeFrom start (.tuple items)

/-- A `yield` expression. -/
def yieldExpr : Reader Expr := do
  let start ← here
  word "yield"
  if ← tryWord "from" then
    nodeFrom start (.yieldFrom (← n.expression))
  else if startsExpr true (← peek) then
    nodeFrom start (.yield (some (← starExprs n bitwiseOr)))
  else nodeFrom start (.yield none)

/-- Whether an expression is starred. -/
def isStarred : Expr → Bool
  | .node _ (.starred _) => true
  | _ => false

/-- One target of a `for`, read as a primary and checked. -/
def forTarget (primary : Reader Expr) : Reader Expr := do
  let start ← here
  if ← tryOp "*" then
    let e ← primary
    guard (isTarget true n.fuel e)
    nodeFrom start (.starred e)
  else
    let e ← primary
    guard (isTarget true n.fuel e)
    return e

/-- The targets of a `for`. -/
def forTargets (primary : Reader Expr) : Reader Expr := do
  let start ← here
  let (items, trailing) ← commaList (forTarget n primary) (startsExpr true) n.fuel
  match items, trailing with
  | [e], false => return e
  | _, _ => nodeFrom start (.tuple items)

/-- A clause of a comprehension, if one is next. -/
def clause? (primary : Reader Expr) : Reader (Option Clause) := do
  if !(← atClause) then return none
  let isAsync ← tryWord "async"
  word "for"
  let target ← forTargets n primary
  word "in"
  let iter ← disjunction
  let filters ← collect (operandAfter? "if" disjunction) n.fuel
  return some (.mk isAsync target iter filters)

/-- The clauses of a comprehension, at least one. -/
def clauses (primary : Reader Expr) : Reader (List Clause) := do
  let cs ← collect (clause? n disjunction primary) n.fuel
  guard !cs.isEmpty
  return cs

/-- What stands between parentheses: a tuple, a generator or a grouped expression. -/
def parenthesized (primary : Reader Expr) : Reader Expr := do
  let start ← here
  op "("
  if ← tryOp ")" then nodeFrom start (.tuple [])
  else if ← atWord "yield" then
    let e ← yieldExpr n bitwiseOr
    op ")"
    return e
  else
    let first ← starNamedExpr n bitwiseOr
    if ← atClause then
      guard !(isStarred first)
      let cs ← clauses n disjunction primary
      op ")"
      nodeFrom start (.generator first cs)
    else if ← tryOp "," then
      let rest ← if startsExpr true (← peek) then
          pure (← commaList (starNamedExpr n bitwiseOr) (startsExpr true) n.fuel).1
        else pure []
      op ")"
      nodeFrom start (.tuple (first :: rest))
    else
      guard !(isStarred first)
      op ")"
      return first

/-- What stands between square brackets: a list or a list comprehension. -/
def bracketed (primary : Reader Expr) : Reader Expr := do
  let start ← here
  op "["
  if ← tryOp "]" then nodeFrom start (.list [])
  else
    let first ← starNamedExpr n bitwiseOr
    if ← atClause then
      guard !(isStarred first)
      let cs ← clauses n disjunction primary
      op "]"
      nodeFrom start (.listComp first cs)
    else
      let rest ← if ← tryOp "," then
          if startsExpr true (← peek) then
            pure (← commaList (starNamedExpr n bitwiseOr) (startsExpr true) n.fuel).1
          else pure []
        else pure []
      op "]"
      nodeFrom start (.list (first :: rest))

/-- An entry of a dictionary; without a key it unpacks a mapping. -/
def dictEntry : Reader (Option Expr × Expr) := do
  if ← tryOp "**" then return (none, ← bitwiseOr)
  let key ← n.expression
  op ":"
  return (some key, ← n.expression)

/-- Whether an entry of a dictionary can start with the token. -/
def startsEntry (t : Token) : Bool :=
  startsExpr false t || (match t with | .op "**" => true | _ => false)

/-- The entries of a dictionary after the first one, and the closing brace. -/
def dictRest (start : Position) (first : Option Expr × Expr) : Reader Expr := do
  let rest ← if ← tryOp "," then
      if startsEntry (← peek) then
        pure (← commaList (dictEntry n bitwiseOr) startsEntry n.fuel).1
      else pure []
    else pure []
  op "\x7d"
  let entries := first :: rest
  nodeFrom start (.dict (entries.map Prod.fst) (entries.map Prod.snd))

/-- What stands between braces: a dictionary, a set or one of their comprehensions. -/
def braced (primary : Reader Expr) : Reader Expr := do
  let start ← here
  op "\x7b"
  if ← tryOp "\x7d" then nodeFrom start (.dict [] [])
  else if ← atOp "**" then dictRest n bitwiseOr start (← dictEntry n bitwiseOr)
  else
    let named ← walrus? n
    let first ← match named with
      | some e => pure e
      | none => starExpr n bitwiseOr
    let isEntry ← if named.isNone && !isStarred first then tryOp ":" else pure false
    if isEntry then
      let value ← n.expression
      if ← atClause then
        let cs ← clauses n disjunction primary
        op "\x7d"
        nodeFrom start (.dictComp first value cs)
      else dictRest n bitwiseOr start (some first, value)
    else if ← atClause then
      guard !(isStarred first)
      let cs ← clauses n disjunction primary
      op "\x7d"
      nodeFrom start (.setComp first cs)
    else
      let rest ← if ← tryOp "," then
          if startsExpr true (← peek) then
            pure (← commaList (starNamedExpr n bitwiseOr) (startsExpr true) n.fuel).1
          else pure []
        else pure []
      op "\x7d"
      nodeFrom start (.set (first :: rest))

/-- Reads the expression embedded in a text: it is read as if in parentheses where its opening
brace stands. -/
def embedded : Quoted.Embedded := fun pos cs =>
  if cs.all fun c => c == ' ' || c == '\t' || c == '\n' || c == '\x0c' then none
  else
    match Token.scanFrom pos ('(' :: cs ++ [')', '\n']) with
    | none => none
    | some tokens => ((starExprs n bitwiseOr).run ⟨tokens, pos⟩).map Prod.fst

/-- A quoted literal, if one is next. -/
def textPiece? : Reader (Option (TextPiece × Span)) := do
  match ← peek with
  | .text piece =>
    let l ← take
    return some (piece, l.span)
  | _ => return none

/-- Adjacent quoted literals. -/
def quoted : Reader Expr := do
  let start ← here
  let items ← collect textPiece? n.fuel
  let whole ← spanFrom start
  match Quoted.concatenate (embedded n bitwiseOr) whole items with
  | some e => return e
  | none => failure

/-- A name, a literal or a bracketed expression. -/
def atom (primary : Reader Expr) : Reader Expr := do
  match ← peek with
  | .name id => return leaf (← take) (.name id)
  | .number c => return leaf (← take) (.constant c.toConstant)
  | .text _ => quoted n bitwiseOr
  | .keyword "None" => return leaf (← take) (.constant .null)
  | .keyword "True" => return leaf (← take) (.constant (.bool true))
  | .keyword "False" => return leaf (← take) (.constant (.bool false))
  | .op "..." => return leaf (← take) (.constant .ellipsis)
  | .op "(" => parenthesized n bitwiseOr disjunction primary
  | .op "[" => bracketed n bitwiseOr disjunction primary
  | .op "\x7b" => braced n bitwiseOr disjunction primary
  | _ => failure

/-- Whether an argument by position starts with the two tokens. -/
def startsPlain : Token → Token → Bool
  | .name _, .op "=" => false
  | t, _ => startsExpr false t

/-- The arguments of a call with their parentheses; one bare generator may stand alone. -/
def callArgs (primary : Reader Expr) : Reader ArgDraft := do
  let start ← here
  op "("
  let before ← if startsPlain (← peek) (← peekSecond) then do
      let first ← namedExpr n
      if ← atClause then
        let cs ← clauses n disjunction primary
        guard (← atOp ")")
        let stop := (← here).column + 1
        let span := Span.mk start ⟨(← here).line, stop⟩
        pure { args := [Expr.node span (.generator first cs)] }
      else
        if !(← atOp ")") then op ","
        pure { args := [first] }
    else pure {}
  let d ← arguments n .any before n.fuel
  op ")"
  return d

/-- Attribute accesses, calls and subscriptions after an expression that starts at a place. -/
def trailers (primary : Reader Expr) (start : Position) : Nat → Expr → Reader Expr
  | 0, _ => failure
  | fuel + 1, e => do
    match ← peek with
    | .op "." =>
      let _ ← take
      let id ← name
      trailers primary start fuel (← nodeFrom start (.attribute e id))
    | .op "(" =>
      let d ← callArgs n disjunction primary
      trailers primary start fuel (← nodeFrom start (.call e d.args d.keywords))
    | .op "[" =>
      let _ ← take
      let index ← slices n
      op "]"
      trailers primary start fuel (← nodeFrom start (.subscript e index))
    | _ => return e

/-- An atom with its attribute accesses, calls and subscriptions. -/
def atomWithTrailers (primary : Reader Expr) : Reader Expr := do
  let start ← here
  let e ← atom n bitwiseOr disjunction primary
  trailers n disjunction primary start n.fuel e

end Primary

/-- The recursive levels below a full expression, tied together by a bound. -/
inductive Level where
  | primary
  | factor
  | bitwiseOr
  | inversion
  | disjunction

/-- The binary operators by level, loosest first. -/
def binaryLevels : List (List (String × BinaryOp)) :=
  [[("|", .bitOr)], [("^", .bitXor)], [("&", .bitAnd)],
   [("<<", .leftShift), (">>", .rightShift)], [("+", .add), ("-", .sub)],
   [("*", .mul), ("/", .div), ("//", .floorDiv), ("%", .mod), ("@", .matMul)]]

/-- The operator of a comparison, taken if it is next. -/
def compareOp? : Reader (Option CompareOp) := do
  match ← peek with
  | .op o =>
    let found := [("==", CompareOp.eq), ("!=", .notEq), ("<", .lt), ("<=", .ltE), (">", .gt),
      (">=", .gtE)].lookup o
    if found.isSome then
      let _ ← take
    return found
  | .keyword "in" =>
    let _ ← take
    return some .member
  | .keyword "is" =>
    let _ ← take
    if ← tryWord "not" then return some .notSame
    return some .same
  | .keyword "not" =>
    match ← peekSecond with
    | .keyword "in" =>
      let _ ← take
      let _ ← take
      return some .notMember
    | _ => return none
  | _ => return none

/-- Operands joined by a word; several make one node. -/
def joinedBy (w : String) (op : BoolOp) (n : Nesting) (operand : Reader Expr) : Reader Expr := do
  let start ← here
  let first ← operand
  let rest ← collect (operandAfter? w operand) n.fuel
  if rest.isEmpty then return first
  nodeFrom start (.bool op (first :: rest))

/-- A comparison operator and its operand, if one is next. -/
def compared? (operand : Reader Expr) : Reader (Option (CompareOp × Expr)) := do
  match ← compareOp? with
  | some op => return some (op, ← operand)
  | none => return none

/-- A comparison chain. -/
def comparison (n : Nesting) (operand : Reader Expr) : Reader Expr := do
  let start ← here
  let left ← operand
  let rest ← collect (compared? operand) n.fuel
  if rest.isEmpty then return left
  nodeFrom start (.compare left (rest.map Prod.fst) (rest.map Prod.snd))

/-- A unary operator, if it is next. -/
def unaryOp? (t : Token) : Option UnaryOp :=
  match t with
  | .op "-" => some .minus
  | .op "+" => some .plus
  | .op "~" => some .invert
  | _ => none

/-- A signed operand, or a power, whose exponent may be signed too. -/
def signedOrPower (primary factor : Reader Expr) : Reader Expr := do
  let start ← here
  match unaryOp? (← peek) with
  | some op =>
    let _ ← take
    nodeFrom start (.unary op (← factor))
  | none =>
    let base ← if ← tryWord "await" then do
        nodeFrom start (.await (← primary))
      else primary
    if ← tryOp "**" then
      nodeFrom start (.binary base .pow (← factor))
    else return base

/-- A comparison, or a negation of one. -/
def negation (n : Nesting) (operand inversion : Reader Expr) : Reader Expr := do
  let start ← here
  if ← tryWord "not" then
    nodeFrom start (.unary .not (← inversion))
  else comparison n operand

/-- Reads one of the recursive levels. -/
def level (n : Nesting) : Nat → Level → Reader Expr
  | 0, _ => failure
  | fuel + 1, l =>
    let bitwiseOr : Reader Expr := fun s => level n fuel .bitwiseOr s
    let disjunction : Reader Expr := fun s => level n fuel .disjunction s
    let primary : Reader Expr := fun s => level n fuel .primary s
    let factor : Reader Expr := fun s => level n fuel .factor s
    let inversion : Reader Expr := fun s => level n fuel .inversion s
    match l with
    | .primary => atomWithTrailers n bitwiseOr disjunction primary
    | .factor => signedOrPower primary factor
    | .bitwiseOr => binaryLevels.foldr (fun ops operand => leftAssoc ops operand n) factor
    | .inversion => negation n bitwiseOr inversion
    | .disjunction => joinedBy "or" .or n (joinedBy "and" .and n inversion)

/-- A conditional expression or a lambda, given how to read what it nests. -/
def expressionWith (n : Nesting) : Reader Expr := do
  let start ← here
  if ← tryWord "lambda" then
    let ps ← params false ":" n failure
    op ":"
    nodeFrom start (.lambda ps (← n.expression))
  else
    let bound := n.fuel + 8
    let body ← level n bound .disjunction
    if ← tryWord "if" then
      let test ← level n bound .disjunction
      word "else"
      nodeFrom start (.choice test body (← n.expression))
    else return body

/-- Reads a full expression. -/
def expression : Nat → Reader Expr
  | 0 => failure
  | fuel + 1 => fun s => expressionWith ⟨fuel, fun s => expression fuel s⟩ s

/-- The readers for a text whose size is at most `size`. -/
def nesting (size : Nat) : Nesting :=
  ⟨size, fun s => expression size s⟩

/-- Reads an operand of `|` in a text of the given nesting. -/
def bitwiseOr (n : Nesting) : Reader Expr :=
  level n (n.fuel + 8) .bitwiseOr

/-- Reads an operand with its attribute accesses, calls and subscriptions. -/
def primary (n : Nesting) : Reader Expr :=
  level n (n.fuel + 8) .primary

end Grammar

end RouteLens
