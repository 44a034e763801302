import RouteLens.Fault
import RouteLens.Grammar.Statement
import RouteLens.Text.Letter

/-!
# Names in expressions

The name that a chain of attribute accesses and calls ends in, its dotted text, and the class that
a type annotation refers to.  An annotation may be quoted; what it quotes is read as an expression.
-/

namespace RouteLens

variable {edition : Nat} [CharacterNames edition]

namespace Text

/-- A text without the blanks around it. -/
def strip (s : String) : String :=
  String.ofList ((s.toList.dropWhile isBlank).reverse.dropWhile isBlank).reverse

end Text

namespace Expr

/-- The last name of a chain of attribute accesses and calls. -/
def terminalName? : Expr → Option String
  | .node _ (.call func _ _) => func.terminalName?
  | .node _ (.attribute _ attr) => some attr
  | .node _ (.name id) => some id
  | _ => none

/-- The text of a chain of attribute accesses that starts with a name. -/
def dottedName? : Expr → Option String
  | .node _ (.name id) => some id
  | .node _ (.attribute value attr) => value.dottedName?.map (· ++ "." ++ attr)
  | _ => none

/-- The constant for an absent value. -/
def isNull : Expr → Bool
  | .node _ (.constant .null) => true
  | _ => false

end Expr

/-- The wrappers that stand for their first argument in an annotation. -/
def transparentWrappers : List String :=
  ["Optional", "Annotated", "Final", "ClassVar", "Required", "NotRequired", "ReadOnly"]

/-- The first of several type arguments, or the only one. -/
def firstTypeArgument : Expr → Expr
  | .node _ (.tuple (e :: _)) => e
  | e => e

/-- All type arguments. -/
def typeArguments : Expr → List Expr
  | .node _ (.tuple es) => es
  | e => [e]

mutual

/-- The class that an annotation refers to, given how to read a quoted annotation. -/
def Expr.typeNameWith (quoted : String → Except Fault (Option String)) :
    Expr → Except Fault (Option String)
  | .node _ form => form.typeNameWith quoted

/-- The class that an annotation refers to, from its form. -/
def ExprForm.typeNameWith (quoted : String → Except Fault (Option String)) :
    ExprForm → Except Fault (Option String)
  | .name id => .ok (some id)
  | .attribute _ attr => .ok (some attr)
  | .constant (.text s _) => quoted s
  | .subscript value index => do
    let base ← value.typeNameWith quoted
    match base with
    | none => return none
    | some name =>
      if transparentWrappers.contains name then
        match index with
        | .node _ (.tuple (e :: _)) => e.typeNameWith quoted
        | index => index.typeNameWith quoted
      else if name == "Union" then
        match index with
        | .node _ (.tuple es) => firstMemberName quoted es
        | index => if index.isNull then return none else index.typeNameWith quoted
      else return some name
  | .binary left .bitOr right =>
    if left.isNull then right.typeNameWith quoted else left.typeNameWith quoted
  | _ => .ok none

/-- The class of the first member that is not the absent value. -/
def firstMemberName (quoted : String → Except Fault (Option String)) :
    List Expr → Except Fault (Option String)
  | [] => .ok none
  | e :: es => if e.isNull then firstMemberName quoted es else e.typeNameWith quoted

end

/-- Reads a quoted annotation as an expression; `none` if it is not one. -/
def readQuoted (s : String) : Except Fault (Option Expr) :=
  match readExpr (Text.strip s) with
  | .ok e => .ok (some e)
  | .error .malformed => .ok none
  | .error .nullCharacter => .error .nullCharacter

/-- The class that a quoted annotation refers to.  A quoted annotation inside it is shorter than
it is, so that its length bounds the depth. -/
def quotedTypeName : Nat → String → Except Fault (Option String)
  | 0, _ => .ok none
  | fuel + 1, s => do
    match ← readQuoted s with
    | none => return none
    | some e => e.typeNameWith (quotedTypeName fuel)

/-- The class that an annotation refers to. -/
def Expr.typeName (e : Expr) : Except Fault (Option String) :=
  e.typeNameWith fun s => quotedTypeName (s.length + 1) s

end RouteLens
