import RouteLens.Tree.Node

/-!
# Kinds

The name of the grammatical kind of every construct.
-/

namespace RouteLens

/-- The kind of an expression. -/
def ExprForm.kind : ExprForm → String
  | .bool .. => "BoolOp"
  | .named .. => "NamedExpr"
  | .binary .. => "BinOp"
  | .unary .. => "UnaryOp"
  | .lambda .. => "Lambda"
  | .choice .. => "IfExp"
  | .dict .. => "Dict"
  | .set .. => "Set"
  | .listComp .. => "ListComp"
  | .setComp .. => "SetComp"
  | .dictComp .. => "DictComp"
  | .generator .. => "GeneratorExp"
  | .await .. => "Await"
  | .yield .. => "Yield"
  | .yieldFrom .. => "YieldFrom"
  | .compare .. => "Compare"
  | .call .. => "Call"
  | .formatted .. => "FormattedValue"
  | .joined .. => "JoinedStr"
  | .constant .. => "Constant"
  | .attribute .. => "Attribute"
  | .subscript .. => "Subscript"
  | .starred .. => "Starred"
  | .name .. => "Name"
  | .list .. => "List"
  | .tuple .. => "Tuple"
  | .slice .. => "Slice"

/-- The kind of a statement. -/
def StmtForm.kind : StmtForm → String
  | .function isAsync .. => if isAsync then "AsyncFunctionDef" else "FunctionDef"
  | .classDef .. => "ClassDef"
  | .ret .. => "Return"
  | .delete .. => "Delete"
  | .assign .. => "Assign"
  | .augAssign .. => "AugAssign"
  | .annAssign .. => "AnnAssign"
  | .forLoop isAsync .. => if isAsync then "AsyncFor" else "For"
  | .whileLoop .. => "While"
  | .branch .. => "If"
  | .withBlock isAsync .. => if isAsync then "AsyncWith" else "With"
  | .matchBlock .. => "Match"
  | .raises .. => "Raise"
  | .tryBlock isGroup .. => if isGroup then "TryStar" else "Try"
  | .assertion .. => "Assert"
  | .importNames .. => "Import"
  | .importFrom .. => "ImportFrom"
  | .globals .. => "Global"
  | .nonlocals .. => "Nonlocal"
  | .expr .. => "Expr"
  | .pass => "Pass"
  | .leave => "Break"
  | .next => "Continue"

/-- The kind of a pattern. -/
def PatternForm.kind : PatternForm → String
  | .value .. => "MatchValue"
  | .singleton .. => "MatchSingleton"
  | .sequence .. => "MatchSequence"
  | .mapping .. => "MatchMapping"
  | .record .. => "MatchClass"
  | .star .. => "MatchStar"
  | .capture .. => "MatchAs"
  | .either .. => "MatchOr"

/-- The kind of an operator; of the use that is made of something, only that it is one. -/
def Mark.kind : Mark → String
  | .bool .and => "And"
  | .bool .or => "Or"
  | .binary .add => "Add"
  | .binary .sub => "Sub"
  | .binary .mul => "Mult"
  | .binary .matMul => "MatMult"
  | .binary .div => "Div"
  | .binary .mod => "Mod"
  | .binary .pow => "Pow"
  | .binary .leftShift => "LShift"
  | .binary .rightShift => "RShift"
  | .binary .bitOr => "BitOr"
  | .binary .bitXor => "BitXor"
  | .binary .bitAnd => "BitAnd"
  | .binary .floorDiv => "FloorDiv"
  | .unary .invert => "Invert"
  | .unary .not => "Not"
  | .unary .plus => "UAdd"
  | .unary .minus => "USub"
  | .compare .eq => "Eq"
  | .compare .notEq => "NotEq"
  | .compare .lt => "Lt"
  | .compare .ltE => "LtE"
  | .compare .gt => "Gt"
  | .compare .gtE => "GtE"
  | .compare .same => "Is"
  | .compare .notSame => "IsNot"
  | .compare .member => "In"
  | .compare .notMember => "NotIn"
  | .use => "expr_context"

/-- The kind of a construct. -/
def Node.kind : Node → String
  | .file _ => "Module"
  | .expr e => e.form.kind
  | .stmt s => s.form.kind
  | .keyword _ => "keyword"
  | .clause _ => "comprehension"
  | .params _ => "arguments"
  | .param _ => "arg"
  | .handler _ => "ExceptHandler"
  | .withItem _ => "withitem"
  | .case _ => "match_case"
  | .pattern (.node _ form) => form.kind
  | .alias _ => "alias"
  | .mark m => m.kind

end RouteLens
