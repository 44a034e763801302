import RouteLens.Number.Binary64
import RouteLens.Tree.Position

/-!
# Expressions

The expressions of the analysed language.  Every expression, parameter and keyword argument carries
the stretch of text it was read from.
-/

namespace RouteLens

/-- The operators that join truth values. -/
inductive BoolOp where
  | and
  | or
  deriving DecidableEq

/-- The operators between two operands. -/
inductive BinaryOp where
  | add
  | sub
  | mul
  | matMul
  | div
  | mod
  | pow
  | leftShift
  | rightShift
  | bitOr
  | bitXor
  | bitAnd
  | floorDiv
  deriving DecidableEq

/-- The operators before one operand. -/
inductive UnaryOp where
  | invert
  | not
  | plus
  | minus
  deriving DecidableEq

/-- The comparisons. -/
inductive CompareOp where
  | eq
  | notEq
  | lt
  | ltE
  | gt
  | gtE
  | same
  | notSame
  | member
  | notMember
  deriving DecidableEq

/-- A value written out in the source.  A text remembers whether its first piece was marked `u`. -/
inductive Constant where
  | null
  | bool (b : Bool)
  | ellipsis
  | int (n : Nat)
  | float (x : Binary64)
  | imaginary (x : Binary64)
  | text (s : String) (marked : Bool)
  | bytes (bs : List UInt8)
  deriving DecidableEq

/-- How a formatted value is turned into text. -/
inductive Conversion where
  | str
  | repr
  | ascii
  deriving DecidableEq

mutual

/-- An expression and where it stands. -/
inductive Expr where
  | node (span : Span) (form : ExprForm)

/-- What an expression is made of. -/
inductive ExprForm where
  | bool (op : BoolOp) (values : List Expr)
  | named (target value : Expr)
  | binary (left : Expr) (op : BinaryOp) (right : Expr)
  | unary (op : UnaryOp) (operand : Expr)
  | lambda (params : Params) (body : Expr)
  | choice (test body orelse : Expr)
  | dict (keys : List (Option Expr)) (values : List Expr)
  | set (elements : List Expr)
  | listComp (element : Expr) (clauses : List Clause)
  | setComp (element : Expr) (clauses : List Clause)
  | dictComp (key value : Expr) (clauses : List Clause)
  | generator (element : Expr) (clauses : List Clause)
  | await (value : Expr)
  | yield (value : Option Expr)
  | yieldFrom (value : Expr)
  | compare (left : Expr) (ops : List CompareOp) (comparators : List Expr)
  | call (func : Expr) (args : List Expr) (keywords : List Keyword)
  | formatted (value : Expr) (conversion : Option Conversion) (spec : Option Expr)
  | joined (values : List Expr)
  | constant (value : Constant)
  | attribute (value : Expr) (attr : String)
  | subscript (value slice : Expr)
  | starred (value : Expr)
  | name (id : String)
  | list (elements : List Expr)
  | tuple (elements : List Expr)
  | slice (lower upper step : Option Expr)

/-- A keyword argument; without a name it unpacks a mapping. -/
inductive Keyword where
  | mk (span : Span) (name : Option String) (value : Expr)

/-- One `for` clause of a comprehension with its filters. -/
inductive Clause where
  | mk (isAsync : Bool) (target iter : Expr) (filters : List Expr)

/-- The parameters of a function.  `defaults` belong to the last positional parameters. -/
inductive Params where
  | mk (posOnly args : List Param) (vararg : Option Param) (kwOnly : List Param)
      (kwDefaults : List (Option Expr)) (kwarg : Option Param) (defaults : List Expr)

/-- One parameter. -/
inductive Param where
  | mk (span : Span) (name : String) (typeExpr : Option Expr)

end

namespace Expr

/-- The stretch of text of an expression. -/
def span : Expr → Span
  | .node s _ => s

/-- The form of an expression. -/
def form : Expr → ExprForm
  | .node _ f => f

end Expr

namespace Keyword

/-- The stretch of text of a keyword argument. -/
def span : Keyword → Span
  | .mk s _ _ => s

/-- The name of a keyword argument. -/
def name : Keyword → Option String
  | .mk _ n _ => n

/-- The value of a keyword argument. -/
def value : Keyword → Expr
  | .mk _ _ v => v

end Keyword

namespace Param

/-- The stretch of text of a parameter. -/
def span : Param → Span
  | .mk s _ _ => s

/-- The name of a parameter. -/
def name : Param → String
  | .mk _ n _ => n

/-- The declared type of a parameter. -/
def typeExpr : Param → Option Expr
  | .mk _ _ a => a

end Param

namespace Params

/-- No parameters. -/
def empty : Params :=
  .mk [] [] none [] [] none []

/-- The parameters that can be given by position, in order. -/
def positional : Params → List Param
  | .mk posOnly args _ _ _ _ _ => posOnly ++ args

end Params

end RouteLens
