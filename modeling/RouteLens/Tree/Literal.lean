import RouteLens.Tree.Expr
import RouteLens.Value.Arithmetic

/-!
# Literal values

The value that an expression spells out without running anything: constants, lists, tuples, sets,
dictionaries, signs before numbers and the four basic operations.  Everything else has no value.
-/

namespace RouteLens

namespace Constant

/-- A constant as a value. -/
def toValue : Constant → Value
  | .null => .null
  | .bool b => .bool b
  | .ellipsis => .ellipsis
  | .int n => .int n
  | .float x => .float x
  | .imaginary x => .complex (.zero false) x
  | .text s _ => .text s
  | .bytes bs => .bytes bs

end Constant

namespace BinaryOp

/-- The operation on values, for the operators that a literal may use. -/
def onValues? : BinaryOp → Option (Value → Value → Except Fault Value)
  | .add => some Value.add
  | .sub => some Value.sub
  | .mul => some Value.mul
  | .div => some Value.div
  | _ => none

end BinaryOp

namespace UnaryOp

/-- A sign before an integer or a floating-point number. -/
def onValue? (op : UnaryOp) (v : Value) : Option Value :=
  match op, v with
  | .minus, .int n => some (.int (-n))
  | .minus, .float x => some (.float x.neg)
  | .plus, .int n => some (.int n)
  | .plus, .float x => some (.float x)
  | _, _ => none

end UnaryOp

mutual

/-- The value of an expression, if it has one. -/
def Expr.literal? : Expr → Option Value
  | .node _ form => form.literal?

/-- The value of an expression, from its form. -/
def ExprForm.literal? : ExprForm → Option Value
  | .constant c => some c.toValue
  | .list elements => (literals? elements).map .list
  | .tuple elements => (literals? elements).map .list
  | .set elements => (literals? elements).map .list
  | .dict keys values => (entries [] ((keyLiterals keys).zip (eachLiteral values))).map .dict
  | .unary op operand =>
    match operand.literal? with
    | some v => op.onValue? v
    | none => none
  | .binary left op right =>
    match op.onValues?, left.literal?, right.literal? with
    | some f, some a, some b => (f a b).toOption
    | _, _, _ => none
  | _ => none
where
  /-- Fills a dictionary in order; an entry that is not complete ends it, and a key that cannot be
  one. -/
  entries (acc : List (Value × Value)) :
      List (Option Value × Option Value) → Option (List (Value × Value))
    | [] => some acc
    | (some k, some v) :: rest => if k.isKey then entries (Value.putEntry k v acc) rest else none
    | _ :: _ => none

/-- The values of several expressions, if all have one. -/
def literals? : List Expr → Option (List Value)
  | [] => some []
  | e :: es =>
    match e.literal?, literals? es with
    | some v, some vs => some (v :: vs)
    | _, _ => none

/-- The value of each of several expressions. -/
def eachLiteral : List Expr → List (Option Value)
  | [] => []
  | e :: es => e.literal? :: eachLiteral es

/-- The value of each of several keys; one that is left out has none. -/
def keyLiterals : List (Option Expr) → List (Option Value)
  | [] => []
  | none :: ks => none :: keyLiterals ks
  | some e :: ks => e.literal? :: keyLiterals ks

end

end RouteLens
