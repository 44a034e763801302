import RouteLens.Tree.Expr

/-!
# Statements

The statements and `case` patterns of the analysed language, with the stretches of text they were
read from.
-/

namespace RouteLens

/-- An imported name and the name it is bound to, if another one. -/
structure Alias where
  span : Span
  name : String
  bound : Option String

/-- One manager of a `with` statement. -/
structure WithItem where
  context : Expr
  target : Option Expr

mutual

/-- A pattern of a `case` and where it stands. -/
inductive Pattern where
  | node (span : Span) (form : PatternForm)

/-- What a pattern is made of. -/
inductive PatternForm where
  | value (e : Expr)
  | singleton (c : Constant)
  | sequence (patterns : List Pattern)
  | mapping (keys : List Expr) (patterns : List Pattern) (rest : Option String)
  | record (cls : Expr) (patterns : List Pattern) (names : List String) (named : List Pattern)
  | star (name : Option String)
  | capture (pattern : Option Pattern) (name : Option String)
  | either (patterns : List Pattern)

end

mutual

/-- A statement and where it stands. -/
inductive Stmt where
  | node (span : Span) (form : StmtForm)

/-- What a statement is made of. -/
inductive StmtForm where
  | function (isAsync : Bool) (name : String) (params : Params) (body : List Stmt)
      (decorators : List Expr) (returns : Option Expr)
  | classDef (name : String) (bases : List Expr) (keywords : List Keyword) (body : List Stmt)
      (decorators : List Expr)
  | ret (value : Option Expr)
  | delete (targets : List Expr)
  | assign (targets : List Expr) (value : Expr)
  | augAssign (target : Expr) (op : BinaryOp) (value : Expr)
  | annAssign (target typeExpr : Expr) (value : Option Expr)
  | forLoop (isAsync : Bool) (target iter : Expr) (body orelse : List Stmt)
  | whileLoop (test : Expr) (body orelse : List Stmt)
  | branch (test : Expr) (body orelse : List Stmt)
  | withBlock (isAsync : Bool) (items : List WithItem) (body : List Stmt)
  | matchBlock (subject : Expr) (cases : List Case)
  | raises (exc cause : Option Expr)
  | tryBlock (isGroup : Bool) (body : List Stmt) (handlers : List Handler)
      (orelse final : List Stmt)
  | assertion (test : Expr) (message : Option Expr)
  | importNames (names : List Alias)
  | importFrom (module : Option String) (names : List Alias) (level : Nat)
  | globals (names : List String)
  | nonlocals (names : List String)
  | expr (value : Expr)
  | pass
  | leave
  | next

/-- One `except` clause. -/
inductive Handler where
  | mk (span : Span) (type : Option Expr) (name : Option String) (body : List Stmt)

/-- One `case` of a `match` statement. -/
inductive Case where
  | mk (pattern : Pattern) (guard : Option Expr) (body : List Stmt)

end

namespace Pattern

/-- The stretch of text of a pattern. -/
def span : Pattern → Span
  | .node s _ => s

end Pattern

namespace Stmt

/-- The stretch of text of a statement. -/
def span : Stmt → Span
  | .node s _ => s

/-- The form of a statement. -/
def form : Stmt → StmtForm
  | .node _ f => f

end Stmt

end RouteLens
