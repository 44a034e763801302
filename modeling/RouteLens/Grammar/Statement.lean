import RouteLens.Grammar.CasePattern

/-!
# Reading statements

Simple statements on one line, compound statements with their blocks, and whole files.  A
statement that starts with the name `match` is a match statement if a subject, a colon and a line
end follow.
-/

namespace RouteLens

variable {edition : Nat} [CharacterNames edition]

namespace Grammar

open Reader

/-- A statement over the stretch from a place to the last token taken. -/
def stmtFrom (start : Position) (form : StmtForm) : Reader Stmt := do
  return .node (← spanFrom start) form

section

variable (n : Nesting)

/-- A right-hand side: a `yield` or one or more expressions. -/
def rightSide : Reader Expr := do
  if ← atWord "yield" then yieldExpr n (bitwiseOr n) else starExprs n (bitwiseOr n)

/-- The operator of an augmented assignment. -/
def augmented? (t : Token) : Option BinaryOp :=
  match t with
  | .op o =>
    [("+=", BinaryOp.add), ("-=", .sub), ("*=", .mul), ("@=", .matMul), ("/=", .div),
     ("%=", .mod), ("&=", .bitAnd), ("|=", .bitOr), ("^=", .bitXor), ("<<=", .leftShift),
     (">>=", .rightShift), ("**=", .pow), ("//=", .floorDiv)].lookup o
  | _ => none

/-- The targets and the value of a chained assignment; `first` was read before the first `=`. -/
def assignChain (first : Expr) : Nat → Reader (List Expr × Expr)
  | 0 => failure
  | fuel + 1 => do
    guard (isTarget.isTargetPart true n.fuel first)
    op "="
    let e ← rightSide n
    if ← atOp "=" then
      let (targets, value) ← assignChain e fuel
      return (first :: targets, value)
    return ([first], e)

/-- An assignment or an expression statement. -/
def exprStmt : Reader Stmt := do
  let start ← here
  let e ← rightSide n
  match ← peek with
  | .op "=" =>
    let (targets, value) ← assignChain n e n.fuel
    stmtFrom start (.assign targets value)
  | .op ":" =>
    guard (isSingleTarget e)
    let _ ← take
    let typeExpr ← n.expression
    let value ← if ← tryOp "=" then pure (some (← rightSide n)) else pure none
    stmtFrom start (.annAssign e typeExpr value)
  | t =>
    match augmented? t with
    | some op =>
      guard (isSingleTarget e)
      let _ ← take
      let value ← rightSide n
      stmtFrom start (.augAssign e op value)
    | none => stmtFrom start (.expr e)

/-- A name with dots. -/
def dottedName : Reader String := do
  let first ← name
  let rest ← collect (do
    if ← tryOp "." then return some (← name)
    return none) n.fuel
  return ".".intercalate (first :: rest)

/-- The name that an import is bound to, if it is given. -/
def boundName : Reader (Option String) := do
  if ← tryWord "as" then return some (← name)
  return none

/-- An imported module. -/
def moduleAlias : Reader Alias := do
  let start ← here
  let id ← dottedName n
  let bound ← boundName
  return ⟨← spanFrom start, id, bound⟩

/-- A name imported from a module. -/
def nameAlias : Reader Alias := do
  let start ← here
  let id ← name
  let bound ← boundName
  return ⟨← spanFrom start, id, bound⟩

/-- The number of leading dots of a relative import. -/
def importLevel : Reader Nat := do
  let dots ← collect (do
    if ← tryOp "." then return some 1
    if ← tryOp "..." then return some 3
    return none) n.fuel
  return dots.foldl (· + ·) 0

/-- An import from a module. -/
def importFrom : Reader Stmt := do
  let start ← here
  word "from"
  let level ← importLevel n
  let module ← if ← atWord "import" then do
      guard (0 < level)
      pure none
    else pure (some (← dottedName n))
  word "import"
  let names ← if ← atOp "*" then do
      let l ← take
      pure [⟨l.span, "*", none⟩]
    else if ← tryOp "(" then do
      let (names, _) ← commaList nameAlias isName n.fuel
      op ")"
      pure names
    else do
      let (names, trailing) ← commaList nameAlias isName n.fuel
      guard !trailing
      pure names
  stmtFrom start (.importFrom module names level)

/-- Targets of a `del`. -/
def delTargets : Reader (List Expr) := do
  let one : Reader Expr := do
    let e ← primary n
    guard (isTarget false n.fuel e)
    return e
  let (targets, _) ← commaList one (startsExpr false) n.fuel
  match ← peek with
  | .op ";" | .newline => return targets
  | _ => failure

/-- A statement without a block. -/
def simpleStmt : Reader Stmt := do
  let start ← here
  match ← peek with
  | .keyword "return" =>
    let _ ← take
    let value ← if startsExpr true (← peek) then pure (some (← starExprs n (bitwiseOr n)))
      else pure none
    stmtFrom start (.ret value)
  | .keyword "import" =>
    let _ ← take
    let (names, trailing) ← commaList (moduleAlias n) isName n.fuel
    guard !trailing
    stmtFrom start (.importNames names)
  | .keyword "from" => importFrom n
  | .keyword "raise" =>
    let _ ← take
    if startsExpr false (← peek) then
      let exc ← n.expression
      let cause ← if ← tryWord "from" then pure (some (← n.expression)) else pure none
      stmtFrom start (.raises (some exc) cause)
    else stmtFrom start (.raises none none)
  | .keyword "pass" =>
    let _ ← take
    stmtFrom start .pass
  | .keyword "break" =>
    let _ ← take
    stmtFrom start .leave
  | .keyword "continue" =>
    let _ ← take
    stmtFrom start .next
  | .keyword "del" =>
    let _ ← take
    stmtFrom start (.delete (← delTargets n))
  | .keyword "assert" =>
    let _ ← take
    let test ← n.expression
    let message ← if ← tryOp "," then pure (some (← n.expression)) else pure none
    stmtFrom start (.assertion test message)
  | .keyword "global" =>
    let _ ← take
    let (names, trailing) ← commaList name isName n.fuel
    guard !trailing
    stmtFrom start (.globals names)
  | .keyword "nonlocal" =>
    let _ ← take
    let (names, trailing) ← commaList name isName n.fuel
    guard !trailing
    stmtFrom start (.nonlocals names)
  | _ => exprStmt n

/-- The statements of one line. -/
def simpleStmts : Nat → Reader (List Stmt)
  | 0 => failure
  | fuel + 1 => do
    let first ← simpleStmt n
    if ← tryOp ";" then
      match ← peek with
      | .newline =>
        newline
        return [first]
      | _ => return first :: (← simpleStmts fuel)
    newline
    return [first]

/-- A manager of a `with` statement. -/
def withItem : Reader WithItem := do
  let context ← n.expression
  if ← tryWord "as" then
    let target ← forTarget n (primary n)
    return ⟨context, some target⟩
  return ⟨context, none⟩

/-- The managers of a `with` statement and its colon.  Parentheses around all of them are tried
first. -/
def withItems : Reader (List WithItem) := do
  let grouped : Reader (List WithItem) := do
    op "("
    let (items, _) ← commaList (withItem n) (startsExpr false) n.fuel
    op ")"
    op ":"
    return items
  match ← attempt grouped with
  | some items => return items
  | none =>
    let (items, trailing) ← commaList (withItem n) (startsExpr false) n.fuel
    guard !trailing
    op ":"
    return items

/-- The subject of a match statement. -/
def subject : Reader Expr := do
  let start ← here
  let (items, trailing) ← commaList (starNamedExpr n (bitwiseOr n)) (startsExpr true) n.fuel
  match items, trailing with
  | [e], false =>
    guard !(isStarred e)
    return e
  | _, _ => nodeFrom start (.tuple items)

variable (block : Reader (List Stmt))

/-- An `else` block, if there is one. -/
def elseBlock : Reader (List Stmt) := do
  if ← tryWord "else" then
    op ":"
    block
  else return []

/-- The rest of an `if` or `elif`, whose word has been taken. -/
def branchFrom (start : Position) : Nat → Reader Stmt
  | 0 => failure
  | fuel + 1 => do
    let test ← namedExpr n
    op ":"
    let body ← block
    let next ← here
    if ← tryWord "elif" then
      let inner ← branchFrom next fuel
      stmtFrom start (.branch test body [inner])
    else
      let orelse ← elseBlock block
      stmtFrom start (.branch test body orelse)

/-- A `for` loop, whose place may start at `async`. -/
def forStmt (start : Position) (isAsync : Bool) : Reader Stmt := do
  word "for"
  let target ← forTargets n (primary n)
  word "in"
  let iter ← starExprs n (bitwiseOr n)
  op ":"
  let body ← block
  let orelse ← elseBlock block
  stmtFrom start (.forLoop isAsync target iter body orelse)

/-- A `with` statement, whose place may start at `async`. -/
def withStmt (start : Position) (isAsync : Bool) : Reader Stmt := do
  word "with"
  let items ← withItems n
  let body ← block
  stmtFrom start (.withBlock isAsync items body)

/-- A function, whose place may start at `async`. -/
def functionDef (start : Position) (isAsync : Bool) (decorators : List Expr) : Reader Stmt := do
  word "def"
  let id ← name
  op "("
  let ps ← params true ")" n (starExpr n (bitwiseOr n))
  op ")"
  let returns ← if ← tryOp "->" then pure (some (← n.expression)) else pure none
  op ":"
  let body ← block
  stmtFrom start (.function isAsync id ps body decorators returns)

/-- A class. -/
def classDef (decorators : List Expr) : Reader Stmt := do
  let start ← here
  word "class"
  let id ← name
  let d ← if ← tryOp "(" then do
      let d ← arguments n .any {} n.fuel
      op ")"
      pure d
    else pure {}
  op ":"
  let body ← block
  stmtFrom start (.classDef id d.args d.keywords body decorators)

/-- The `except` clauses of one kind. -/
def handlers (isGroup : Bool) : Nat → Reader (List Handler)
  | 0 => failure
  | fuel + 1 => do
    let start ← here
    if ← tryWord "except" then
      guard ((← tryOp "*") == isGroup)
      let type ← if isGroup || !(← atOp ":") then pure (some (← n.expression)) else pure none
      let id ← if type.isSome then boundName else pure none
      op ":"
      let body ← block
      let h := Handler.mk (← spanFrom start) type id body
      return h :: (← handlers isGroup fuel)
    return []

/-- A `try` statement. -/
def tryStmt : Reader Stmt := do
  let start ← here
  word "try"
  op ":"
  let body ← block
  let isGroup := match ← peek, ← peekSecond with
    | .keyword "except", .op "*" => true
    | _, _ => false
  let hs ← handlers n block isGroup n.fuel
  let orelse ← if hs.isEmpty then pure [] else elseBlock block
  let final ← if ← tryWord "finally" then do
      op ":"
      block
    else pure []
  guard (!hs.isEmpty || !final.isEmpty)
  stmtFrom start (.tryBlock isGroup body hs orelse final)

/-- The cases of a match statement, at least one. -/
def caseBlocks : Reader (List Case) := do
  let one : Reader (Option Case) := do
    match ← peek with
    | .name "case" =>
      let _ ← take
      let p ← casePattern n
      let guard' ← if ← tryWord "if" then pure (some (← namedExpr n)) else pure none
      op ":"
      return some (.mk p guard' (← block))
    | _ => return none
  let cs ← collect one n.fuel
  guard !cs.isEmpty
  return cs

/-- A match statement, if one is next. -/
def matchStmt? : Reader (Option Stmt) := do
  match ← peek with
  | .name "match" =>
    let start ← here
    let head ← attempt (do
      let _ ← take
      let e ← subject n
      op ":"
      newline
      return e)
    match head with
    | none => return none
    | some e =>
      match ← take with
      | ⟨.indent, _⟩ =>
        let cs ← caseBlocks n block
        match ← take with
        | ⟨.dedent, _⟩ => return some (← stmtFrom start (.matchBlock e cs))
        | _ => failure
      | _ => failure
  | _ => return none

/-- The decorators before a definition. -/
def decorators : Reader (List Expr) :=
  collect (do
    if ← tryOp "@" then
      let e ← namedExpr n
      newline
      return some e
    return none) n.fuel

/-- A statement, or the simple statements of one line. -/
def statement : Reader (List Stmt) := do
  let start ← here
  match ← peek with
  | .op "@" =>
    let ds ← decorators n
    let start ← here
    if ← atWord "class" then return [← classDef n block ds]
    let isAsync ← tryWord "async"
    return [← functionDef n block start isAsync ds]
  | .keyword "def" => return [← functionDef n block start false []]
  | .keyword "class" => return [← classDef n block []]
  | .keyword "async" =>
    let _ ← take
    match ← peek with
    | .keyword "def" => return [← functionDef n block start true []]
    | .keyword "with" => return [← withStmt n block start true]
    | .keyword "for" => return [← forStmt n block start true]
    | _ => failure
  | .keyword "if" =>
    let _ ← take
    return [← branchFrom n block start n.fuel]
  | .keyword "for" => return [← forStmt n block start false]
  | .keyword "with" => return [← withStmt n block start false]
  | .keyword "while" =>
    let _ ← take
    let test ← namedExpr n
    op ":"
    let body ← block
    let orelse ← elseBlock block
    return [← stmtFrom start (.whileLoop test body orelse)]
  | .keyword "try" => return [← tryStmt n block]
  | _ =>
    match ← matchStmt? n block with
    | some s => return [s]
    | none => simpleStmts n n.fuel

/-- Statements up to the end of a block or of the file, which is not taken. -/
def statements : Reader (List Stmt) := do
  let groups ← collect (do
    match ← peek with
    | .dedent | .stop => return none
    | _ => return some (← statement n block)) n.fuel
  return groups.flatten

/-- An indented block, or simple statements on the same line. -/
def blockWith : Reader (List Stmt) := do
  match ← peek with
  | .newline =>
    newline
    match ← take with
    | ⟨.indent, _⟩ =>
      let body ← statements n block
      match ← take with
      | ⟨.dedent, _⟩ =>
        guard !body.isEmpty
        return body
      | _ => failure
    | _ => failure
  | _ => simpleStmts n n.fuel

end

/-- Reads a block. -/
def block (n : Nesting) : Nat → Reader (List Stmt)
  | 0 => failure
  | fuel + 1 => fun s => blockWith n (fun s => block n fuel s) s

/-- Reads a whole file. -/
def file (n : Nesting) : Reader (List Stmt) := do
  let body ← statements n (block n n.fuel)
  match ← peek with
  | .stop => return body
  | _ => failure

/-- An empty line, if one is next. -/
def emptyLine? : Reader (Option Unit) := do
  match ← peek with
  | .newline => return some (← newline)
  | _ => return none

/-- Reads one or more expressions that fill the whole text. -/
def wholeExpr (n : Nesting) : Reader Expr := do
  let start ← here
  let (items, trailing) ← commaList n.expression (startsExpr false) n.fuel
  let e ← match items, trailing with
    | [e], false => pure e
    | _, _ => nodeFrom start (.tuple items)
  let _ ← collect emptyLine? n.fuel
  match ← peek with
  | .stop => return e
  | _ => failure

end Grammar

/-- Why a source text cannot be used. -/
inductive SourceFault where
  | malformed
  | nullCharacter
  deriving DecidableEq

/-- Adds a line end to a text that does not end in one. -/
def endLine (cs : List Char) : List Char :=
  if cs.isEmpty || cs.getLast? == some '\n' then cs else cs ++ ['\n']

/-- Reads the characters of a text with a grammar rule. -/
def readWith {α : Type} (rule : Nesting → Reader α) (cs : List Char) : Except SourceFault α :=
  if cs.contains '\x00' then .error .nullCharacter
  else
    match Token.scan cs with
    | none => .error .malformed
    | some tokens =>
      match (rule (Grammar.nesting (cs.length + 16))).run ⟨tokens, .first⟩ with
      | some (a, _) => .ok a
      | none => .error .malformed

/-- Reads a source file. -/
def readSource (text : String) : Except SourceFault (List Stmt) :=
  readWith Grammar.file (endLine (unifyLineEnds text.toList))

/-- Reads a text that is one expression. -/
def readExpr (text : String) : Except SourceFault Expr :=
  readWith Grammar.wholeExpr (unifyLineEnds text.toList)

end RouteLens
