import RouteLens.Tree.Stmt

/-!
# Nodes

One type for every construct of a source tree, and one view of it, `Node.children`: the direct
parts of a construct in their grammatical order, each with the role it plays in a repetition.
Traversals, counts and searches are all written over this view, and a part is smaller than the
whole (`sizeOf_lt_of_mem_children`), which is why they end.
-/

namespace RouteLens

/-- A construct without text of its own: an operator, or the use that is made of a name, an
attribute, an item or a sequence, such as to read or to assign it. -/
inductive Mark where
  | bool (op : BoolOp)
  | binary (op : BinaryOp)
  | unary (op : UnaryOp)
  | compare (op : CompareOp)
  | use

/-- A construct of a source tree. -/
inductive Node where
  | file (body : List Stmt)
  | expr (e : Expr)
  | stmt (s : Stmt)
  | keyword (k : Keyword)
  | clause (c : Clause)
  | params (p : Params)
  | param (p : Param)
  | handler (h : Handler)
  | withItem (w : WithItem)
  | case (c : Case)
  | pattern (p : Pattern)
  | alias (a : Alias)
  | mark (m : Mark)

/-- What part a child plays in its parent's repetition.  A repeated child runs once per round.  The
first clause of a comprehension is repeated too, except for the iterable that it runs over. -/
inductive Role where
  | plain
  | repeated
  | firstClause
  | iterable
  deriving DecidableEq

/-- A child and its role. -/
structure Child where
  role : Role
  node : Node

/-- A child outside any repetition. -/
def Child.plain (n : Node) : Child :=
  ⟨.plain, n⟩

/-- The child that is a mark. -/
def markPart (m : Mark) : Child :=
  .plain (.mark m)

/-- Plain children, one per expression. -/
def exprParts (es : List Expr) : List Child :=
  es.map fun e => .plain (.expr e)

@[simp] theorem exprParts_nil : exprParts [] = [] := rfl

@[simp] theorem exprParts_cons (e : Expr) (es : List Expr) :
    exprParts (e :: es) = .plain (.expr e) :: exprParts es := rfl

/-- Plain children of an optional expression. -/
def optParts (e : Option Expr) : List Child :=
  exprParts e.toList

/-- Children for statements, all in one role. -/
def stmtParts (role : Role) (ss : List Stmt) : List Child :=
  ss.map fun s => ⟨role, .stmt s⟩

/-- Children for the clauses of a comprehension. -/
def clauseParts : List Clause → List Child
  | [] => []
  | c :: cs => ⟨.firstClause, .clause c⟩ :: cs.map fun c => ⟨.repeated, .clause c⟩

/-- The parts of an expression. -/
def ExprForm.children : ExprForm → List Child
  | .bool op values => markPart (.bool op) :: exprParts values
  | .named target value => exprParts [target, value]
  | .binary left op right => [.plain (.expr left), markPart (.binary op), .plain (.expr right)]
  | .unary op operand => markPart (.unary op) :: exprParts [operand]
  | .lambda params body => [.plain (.params params), .plain (.expr body)]
  | .choice test body orelse => exprParts [test, body, orelse]
  | .dict keys values => exprParts (keys.flatMap Option.toList) ++ exprParts values
  | .set elements => exprParts elements
  | .listComp element clauses => ⟨.repeated, .expr element⟩ :: clauseParts clauses
  | .setComp element clauses => ⟨.repeated, .expr element⟩ :: clauseParts clauses
  | .dictComp key value clauses =>
    ⟨.repeated, .expr key⟩ :: ⟨.repeated, .expr value⟩ :: clauseParts clauses
  | .generator element clauses => ⟨.repeated, .expr element⟩ :: clauseParts clauses
  | .await value => exprParts [value]
  | .yield value => optParts value
  | .yieldFrom value => exprParts [value]
  | .compare left ops comparators =>
    .plain (.expr left) :: (ops.map fun op => markPart (.compare op)) ++ exprParts comparators
  | .call func args keywords =>
    exprParts (func :: args) ++ keywords.map fun k => .plain (.keyword k)
  | .formatted value _ spec => exprParts [value] ++ optParts spec
  | .joined values => exprParts values
  | .constant _ => []
  | .attribute value _ => exprParts [value] ++ [markPart .use]
  | .subscript value index => exprParts [value, index] ++ [markPart .use]
  | .starred value => exprParts [value] ++ [markPart .use]
  | .name _ => [markPart .use]
  | .list elements => exprParts elements ++ [markPart .use]
  | .tuple elements => exprParts elements ++ [markPart .use]
  | .slice lower upper step => optParts lower ++ optParts upper ++ optParts step

/-- The parts of a statement. -/
def StmtForm.children : StmtForm → List Child
  | .function _ _ params body decorators returns =>
    .plain (.params params) :: stmtParts .plain body ++ exprParts decorators ++ optParts returns
  | .classDef _ bases keywords body decorators =>
    exprParts bases ++ (keywords.map fun k => .plain (.keyword k)) ++ stmtParts .plain body ++
    exprParts decorators
  | .ret value => optParts value
  | .delete targets => exprParts targets
  | .assign targets value => exprParts targets ++ exprParts [value]
  | .augAssign target op value =>
    [.plain (.expr target), markPart (.binary op), .plain (.expr value)]
  | .annAssign target typeExpr value => exprParts [target, typeExpr] ++ optParts value
  | .forLoop _ target iter body orelse =>
    .plain (.expr target) :: ⟨.iterable, .expr iter⟩ :: stmtParts .repeated body ++
      stmtParts .plain orelse
  | .whileLoop test body orelse =>
    ⟨.repeated, .expr test⟩ :: stmtParts .repeated body ++ stmtParts .plain orelse
  | .branch test body orelse =>
    .plain (.expr test) :: stmtParts .plain body ++ stmtParts .plain orelse
  | .withBlock _ items body =>
    (items.map fun w => .plain (.withItem w)) ++ stmtParts .plain body
  | .matchBlock subject cases =>
    .plain (.expr subject) :: cases.map fun c => .plain (.case c)
  | .raises exc cause => optParts exc ++ optParts cause
  | .tryBlock _ body handlers orelse final =>
    stmtParts .plain body ++ (handlers.map fun h => .plain (.handler h)) ++
      stmtParts .plain orelse ++ stmtParts .plain final
  | .assertion test message => exprParts [test] ++ optParts message
  | .importNames names => names.map fun a => .plain (.alias a)
  | .importFrom _ names _ => names.map fun a => .plain (.alias a)
  | .globals _ => []
  | .nonlocals _ => []
  | .expr value => exprParts [value]
  | .pass => []
  | .leave => []
  | .next => []

/-- The parts of a pattern. -/
def PatternForm.children : PatternForm → List Child
  | .value e => exprParts [e]
  | .singleton _ => []
  | .sequence patterns => patterns.map fun p => .plain (.pattern p)
  | .mapping keys patterns _ => exprParts keys ++ patterns.map fun p => .plain (.pattern p)
  | .record cls patterns _ named =>
    exprParts [cls] ++ (patterns.map fun p => .plain (.pattern p)) ++
      named.map fun p => .plain (.pattern p)
  | .star _ => []
  | .capture pattern _ => pattern.toList.map fun p => .plain (.pattern p)
  | .either patterns => patterns.map fun p => .plain (.pattern p)

/-- The parts of a parameter list. -/
def Params.children : Params → List Child
  | .mk posOnly args vararg kwOnly kwDefaults kwarg defaults =>
    ((posOnly ++ args ++ vararg.toList ++ kwOnly).map fun p => .plain (.param p)) ++
    exprParts (kwDefaults.flatMap Option.toList) ++
      (kwarg.toList.map fun p => .plain (.param p)) ++ exprParts defaults

namespace Node

/-- The direct parts of a construct, in grammatical order. -/
def children : Node → List Child
  | .file body => stmtParts .plain body
  | .expr (.node _ form) => form.children
  | .stmt (.node _ form) => form.children
  | .keyword (.mk _ _ value) => exprParts [value]
  | .clause (.mk _ target iter filters) =>
    .plain (.expr target) :: ⟨.iterable, .expr iter⟩ :: exprParts filters
  | .params p => p.children
  | .param (.mk _ _ typeExpr) => optParts typeExpr
  | .handler (.mk _ type _ body) => optParts type ++ stmtParts .plain body
  | .withItem w => exprParts [w.context] ++ optParts w.target
  | .case (.mk shape guard body) =>
    .plain (.pattern shape) :: optParts guard ++ stmtParts .plain body
  | .pattern (.node _ form) => form.children
  | .alias _ => []
  | .mark _ => []

/-- Where a construct stands, for the constructs that have a place of their own. -/
def span? : Node → Option Span
  | .file _ => none
  | .expr e => some e.span
  | .stmt s => some s.span
  | .keyword k => some k.span
  | .clause _ => none
  | .params _ => none
  | .param p => some p.span
  | .handler (.mk span _ _ _) => some span
  | .withItem _ => none
  | .case _ => none
  | .pattern p => some p.span
  | .alias a => some a.span
  | .mark _ => none

/-- Where a construct starts, for the constructs that have a place of their own. -/
def start? (n : Node) : Option Position :=
  n.span?.map Span.start

end Node

section Size

theorem sizeOf_lt_of_mem_toList {α : Type} [SizeOf α] {x : α} {o : Option α}
    (h : x ∈ o.toList) : sizeOf x < sizeOf o := by
  cases o with
  | none => simp at h
  | some y => simp at h; subst h; simp

@[grind →] theorem Child.sizeOf_lt_of_mem_exprParts {c : Child} {es : List Expr}
    (h : c ∈ exprParts es) : sizeOf c.node < 1 + sizeOf es := by
  simp only [exprParts, List.mem_map] at h
  obtain ⟨e, he, rfl⟩ := h
  have := List.sizeOf_lt_of_mem he
  simp [Child.plain]; omega

@[grind →] theorem Child.sizeOf_lt_of_mem_optParts {c : Child} {e : Option Expr}
    (h : c ∈ optParts e) : sizeOf c.node < 1 + sizeOf e := by
  simp only [optParts, exprParts, List.mem_map] at h
  obtain ⟨e', he, rfl⟩ := h
  have := sizeOf_lt_of_mem_toList he
  simp [Child.plain]; omega

@[grind →] theorem Child.sizeOf_lt_of_mem_flatMap_optParts {c : Child} {es : List (Option Expr)}
    (h : c ∈ exprParts (es.flatMap Option.toList)) : sizeOf c.node < 1 + sizeOf es := by
  simp only [exprParts, List.mem_map, List.mem_flatMap] at h
  obtain ⟨e, ⟨o, ho, he⟩, rfl⟩ := h
  have h1 := List.sizeOf_lt_of_mem ho
  have h2 := sizeOf_lt_of_mem_toList he
  simp [Child.plain]; omega

@[grind →] theorem Child.sizeOf_lt_of_mem_stmtParts {c : Child} {r : Role} {ss : List Stmt}
    (h : c ∈ stmtParts r ss) : sizeOf c.node < 1 + sizeOf ss := by
  simp only [stmtParts, List.mem_map] at h
  obtain ⟨s, hs, rfl⟩ := h
  have := List.sizeOf_lt_of_mem hs
  simp; omega

@[grind →] theorem Child.sizeOf_lt_of_mem_clauseParts {c : Child} {cs : List Clause}
    (h : c ∈ clauseParts cs) : sizeOf c.node < 1 + sizeOf cs := by
  cases cs with
  | nil => simp [clauseParts] at h
  | cons d ds =>
    simp only [clauseParts, List.mem_cons, List.mem_map] at h
    obtain rfl | ⟨s, hs, rfl⟩ := h
    · simp; omega
    · have := List.sizeOf_lt_of_mem hs
      simp; omega

@[grind =] theorem Child.sizeOf_plain (n : Node) : sizeOf (Child.plain n).node = sizeOf n := rfl

@[grind =] theorem Child.sizeOf_markPart (m : Mark) : sizeOf (markPart m).node = 1 + sizeOf m :=
  rfl

theorem ExprForm.sizeOf_lt_of_mem_children {f : ExprForm} {c : Child} (h : c ∈ f.children) :
    sizeOf c.node < 2 + sizeOf f := by
  cases f <;> simp only [ExprForm.children, exprParts_cons, exprParts_nil, List.mem_append,
    List.mem_cons, List.not_mem_nil, or_false, List.mem_map] at h
  all_goals grind [→ List.sizeOf_lt_of_mem]

theorem StmtForm.sizeOf_lt_of_mem_children {f : StmtForm} {c : Child} (h : c ∈ f.children) :
    sizeOf c.node < 2 + sizeOf f := by
  cases f <;> simp only [StmtForm.children, exprParts_cons, exprParts_nil, List.mem_append,
    List.mem_cons, List.not_mem_nil, or_false, List.mem_map] at h
  all_goals grind [→ List.sizeOf_lt_of_mem]

theorem PatternForm.sizeOf_lt_of_mem_children {f : PatternForm} {c : Child}
    (h : c ∈ f.children) : sizeOf c.node < 1 + sizeOf f := by
  cases f <;> simp only [PatternForm.children, exprParts_cons, exprParts_nil, List.mem_append,
    List.mem_cons, List.not_mem_nil, or_false, List.mem_map] at h
  all_goals grind [→ List.sizeOf_lt_of_mem, → sizeOf_lt_of_mem_toList]

theorem Params.sizeOf_lt_of_mem_children {p : Params} {c : Child} (h : c ∈ p.children) :
    sizeOf c.node < 1 + sizeOf p := by
  cases p
  simp only [Params.children, List.mem_append, List.mem_map] at h
  grind [→ List.sizeOf_lt_of_mem, → sizeOf_lt_of_mem_toList]

/-- A part of a construct is smaller than the construct. -/
theorem Node.sizeOf_lt_of_mem_children {n : Node} {c : Child} (h : c ∈ n.children) :
    sizeOf c.node < sizeOf n := by
  match n with
  | .expr (.node _ _) => have := ExprForm.sizeOf_lt_of_mem_children h; simp; omega
  | .stmt (.node _ _) => have := StmtForm.sizeOf_lt_of_mem_children h; simp; omega
  | .pattern (.node _ _) => have := PatternForm.sizeOf_lt_of_mem_children h; simp; omega
  | .params _ => have := Params.sizeOf_lt_of_mem_children h; simp; omega
  | .file _ => have := Child.sizeOf_lt_of_mem_stmtParts h; simp; omega
  | .param (.mk _ _ _) => have := Child.sizeOf_lt_of_mem_optParts h; simp; omega
  | .alias _ | .mark _ => simp [Node.children] at h
  | .keyword (.mk _ _ _) | .clause (.mk _ _ _ _) | .handler (.mk _ _ _ _) | .withItem ⟨_, _⟩
  | .case (.mk _ _ _) =>
    simp only [Node.children, exprParts_cons, exprParts_nil, List.mem_append, List.mem_cons,
      List.not_mem_nil, or_false] at h
    grind

end Size

end RouteLens
