import RouteLens.Tree.Literal

/-!
# Evaluating literals in limited room

`Expr.literal?` says which value an expression spells out.  The evaluation gets there by calls of
itself, which may be nested as deeply as there is room.  It marks what has no value as
`Value.missing`, looks for the mark in what it has got before it goes on, and passes over the faults
of operations and of keys; any other fault ends it.
-/

namespace RouteLens

/-- Passes over the faults of some classes: what fails with one of them has no value. -/
def Fault.passing (classes : List FaultClass) : Except Fault Value → Except Fault Value
  | .error f => if f.class?.any classes.contains then .ok .missing else .error f
  | .ok v => .ok v

namespace Value

/-- Whether a value is the mark of a missing one. -/
def isMissing : Value → Bool
  | .missing => true
  | _ => false

/-- Puts an entry into a dictionary; what cannot be a key is a fault. -/
def setEntry (key value : Value) (entries : List (Value × Value)) :
    Except Fault (List (Value × Value)) :=
  if key.isKey then .ok (putEntry key value entries) else .error .wrongKind

end Value

namespace Expr

/-- How deeply calls may be nested. -/
def callLimit : Nat := 1000

section

variable (evaluate : Expr → Except Fault Value)

/-- Evaluates a key; an entry that unpacks a mapping has none. -/
def evaluateKey : Option Expr → Except Fault Value
  | none => .ok .missing
  | some e => evaluate e

/-- Fills a dictionary in order, until an entry is not complete or its key cannot be one. -/
def evaluateEntries (done : List (Value × Value)) : List (Option Expr × Expr) → Except Fault Value
  | [] => .ok (.dict done)
  | (k, v) :: rest => do
    let key ← evaluateKey evaluate k
    let value ← evaluate v
    if key.isMissing || value.isMissing then return .missing
    match key.setEntry value done with
    | .ok done => evaluateEntries done rest
    | .error f => Fault.passing [.kind] (.error f)

/-- Evaluates the elements of a display. -/
def evaluateElements (es : List Expr) : Except Fault Value := do
  let items ← es.mapM evaluate
  if items.any Value.isMissing then return .missing
  return .list items

end

/-- Evaluates an expression in the given room.  The elements of a display are evaluated by a call
between that of the display and theirs. -/
def evaluate : Nat → Expr → Except Fault Value
  | 0, _ => .error .tooDeep
  | room + 1, .node _ form =>
    match form with
    | .constant c => .ok c.toValue
    | .list es | .tuple es | .set es =>
      match room with
      | 0 => .error .tooDeep
      | inner + 1 => evaluateElements (evaluate inner) es
    | .dict keys values => evaluateEntries (evaluate room) [] (keys.zip values)
    | .unary op e =>
      if op = .plus ∨ op = .minus then do return (op.onValue? (← evaluate room e)).getD .missing
      else .ok .missing
    | .binary l op r =>
      match op.onValues? with
      | some f => do
        let a ← evaluate room l
        let b ← evaluate room r
        if a.isMissing || b.isMissing then return .missing
        Fault.passing [.kind, .zeroDivision, .range] (f a b)
      | none => .ok .missing
    | _ => .ok .missing

end Expr

end RouteLens
