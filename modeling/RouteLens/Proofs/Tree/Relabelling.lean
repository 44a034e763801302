import Mathlib.Data.List.Forall2
import RouteLens.Tree.Traversal

/-!
# Trees with other names

A relabelling puts other names for the names in a tree, and other aliases for those of its `from`
imports; all else stays, and everything stays where it stands (`Stmt.relabel`).

A traversal looks at places, roles and parts only.  If a relation between constructs keeps places
and goes on to the parts (`Node.IsMirror`), then the traversals of two related constructs go side by
side (`IsMirror.occurrences`).  A relabelled tree mirrors the tree that it comes from, and so do two
files of which one part is relabelled in one way and the rest in another.
-/

namespace RouteLens

/-- Other names for names, and other aliases for those of `from` imports. -/
structure Relabelling where
  name : String → String
  imported : Alias → Alias
  span_imported : ∀ a, (imported a).span = a.span

/-! ## Expressions -/

mutual

/-- An expression with other names. -/
def Expr.relabel (f : Relabelling) : Expr → Expr
  | .node span form => .node span (form.relabel f)

/-- The form of an expression with other names. -/
def ExprForm.relabel (f : Relabelling) : ExprForm → ExprForm
  | .bool op values => .bool op (relabelExprs f values)
  | .named target value => .named (target.relabel f) (value.relabel f)
  | .binary left op right => .binary (left.relabel f) op (right.relabel f)
  | .unary op operand => .unary op (operand.relabel f)
  | .lambda params body => .lambda (params.relabel f) (body.relabel f)
  | .choice test body orelse => .choice (test.relabel f) (body.relabel f) (orelse.relabel f)
  | .dict keys values => .dict (relabelKeys f keys) (relabelExprs f values)
  | .set elements => .set (relabelExprs f elements)
  | .listComp element clauses => .listComp (element.relabel f) (relabelClauses f clauses)
  | .setComp element clauses => .setComp (element.relabel f) (relabelClauses f clauses)
  | .dictComp key value clauses =>
    .dictComp (key.relabel f) (value.relabel f) (relabelClauses f clauses)
  | .generator element clauses => .generator (element.relabel f) (relabelClauses f clauses)
  | .await value => .await (value.relabel f)
  | .yield value => .yield (relabelOption f value)
  | .yieldFrom value => .yieldFrom (value.relabel f)
  | .compare left ops comparators => .compare (left.relabel f) ops (relabelExprs f comparators)
  | .call func args keywords =>
    .call (func.relabel f) (relabelExprs f args) (relabelKeywords f keywords)
  | .formatted value conversion spec =>
    .formatted (value.relabel f) conversion (relabelOption f spec)
  | .joined values => .joined (relabelExprs f values)
  | .constant value => .constant value
  | .attribute value attr => .attribute (value.relabel f) attr
  | .subscript value index => .subscript (value.relabel f) (index.relabel f)
  | .starred value => .starred (value.relabel f)
  | .name id => .name (f.name id)
  | .list elements => .list (relabelExprs f elements)
  | .tuple elements => .tuple (relabelExprs f elements)
  | .slice lower upper step =>
    .slice (relabelOption f lower) (relabelOption f upper) (relabelOption f step)

/-- Expressions with other names. -/
def relabelExprs (f : Relabelling) : List Expr → List Expr
  | [] => []
  | e :: es => e.relabel f :: relabelExprs f es

/-- An optional expression with other names. -/
def relabelOption (f : Relabelling) : Option Expr → Option Expr
  | none => none
  | some e => some (e.relabel f)

/-- The keys of a dictionary with other names. -/
def relabelKeys (f : Relabelling) : List (Option Expr) → List (Option Expr)
  | [] => []
  | e :: es => relabelOption f e :: relabelKeys f es

/-- A keyword argument with other names in its value. -/
def Keyword.relabel (f : Relabelling) : Keyword → Keyword
  | .mk span name value => .mk span name (value.relabel f)

/-- Keyword arguments with other names in their values. -/
def relabelKeywords (f : Relabelling) : List Keyword → List Keyword
  | [] => []
  | k :: ks => k.relabel f :: relabelKeywords f ks

/-- A clause with other names. -/
def Clause.relabel (f : Relabelling) : Clause → Clause
  | .mk isAsync target iter filters =>
    .mk isAsync (target.relabel f) (iter.relabel f) (relabelExprs f filters)

/-- Clauses with other names. -/
def relabelClauses (f : Relabelling) : List Clause → List Clause
  | [] => []
  | c :: cs => c.relabel f :: relabelClauses f cs

/-- A parameter with other names in its type. -/
def Param.relabel (f : Relabelling) : Param → Param
  | .mk span name typeExpr => .mk span name (relabelOption f typeExpr)

/-- Parameters with other names in their types. -/
def relabelParams (f : Relabelling) : List Param → List Param
  | [] => []
  | p :: ps => p.relabel f :: relabelParams f ps

/-- An optional parameter with other names in its type. -/
def relabelParam (f : Relabelling) : Option Param → Option Param
  | none => none
  | some p => some (p.relabel f)

/-- A parameter list with other names in its types and defaults. -/
def Params.relabel (f : Relabelling) : Params → Params
  | .mk posOnly args vararg kwOnly kwDefaults kwarg defaults =>
    .mk (relabelParams f posOnly) (relabelParams f args) (relabelParam f vararg)
      (relabelParams f kwOnly) (relabelKeys f kwDefaults) (relabelParam f kwarg)
      (relabelExprs f defaults)

end

/-! ## Statements -/

mutual

/-- A pattern with other names in its expressions. -/
def Pattern.relabel (f : Relabelling) : Pattern → Pattern
  | .node span form => .node span (form.relabel f)

/-- The form of a pattern with other names in its expressions. -/
def PatternForm.relabel (f : Relabelling) : PatternForm → PatternForm
  | .value e => .value (e.relabel f)
  | .singleton c => .singleton c
  | .sequence patterns => .sequence (relabelPatterns f patterns)
  | .mapping keys patterns rest => .mapping (relabelExprs f keys) (relabelPatterns f patterns) rest
  | .record cls patterns names named =>
    .record (cls.relabel f) (relabelPatterns f patterns) names (relabelPatterns f named)
  | .star name => .star name
  | .capture pattern name => .capture (relabelPattern f pattern) name
  | .either patterns => .either (relabelPatterns f patterns)

/-- Patterns with other names in their expressions. -/
def relabelPatterns (f : Relabelling) : List Pattern → List Pattern
  | [] => []
  | p :: ps => p.relabel f :: relabelPatterns f ps

/-- An optional pattern with other names in its expressions. -/
def relabelPattern (f : Relabelling) : Option Pattern → Option Pattern
  | none => none
  | some p => some (p.relabel f)

end

/-- A manager with other names. -/
def WithItem.relabel (f : Relabelling) (w : WithItem) : WithItem :=
  ⟨w.context.relabel f, relabelOption f w.target⟩

mutual

/-- A statement with other names and other aliases. -/
def Stmt.relabel (f : Relabelling) : Stmt → Stmt
  | .node span form => .node span (form.relabel f)

/-- The form of a statement with other names and other aliases. -/
def StmtForm.relabel (f : Relabelling) : StmtForm → StmtForm
  | .function isAsync name params body decorators returns =>
    .function isAsync name (params.relabel f) (relabelStmts f body) (relabelExprs f decorators)
      (relabelOption f returns)
  | .classDef name bases keywords body decorators =>
    .classDef name (relabelExprs f bases) (relabelKeywords f keywords) (relabelStmts f body)
      (relabelExprs f decorators)
  | .ret value => .ret (relabelOption f value)
  | .delete targets => .delete (relabelExprs f targets)
  | .assign targets value => .assign (relabelExprs f targets) (value.relabel f)
  | .augAssign target op value => .augAssign (target.relabel f) op (value.relabel f)
  | .annAssign target typeExpr value =>
    .annAssign (target.relabel f) (typeExpr.relabel f) (relabelOption f value)
  | .forLoop isAsync target iter body orelse =>
    .forLoop isAsync (target.relabel f) (iter.relabel f) (relabelStmts f body)
      (relabelStmts f orelse)
  | .whileLoop test body orelse =>
    .whileLoop (test.relabel f) (relabelStmts f body) (relabelStmts f orelse)
  | .branch test body orelse =>
    .branch (test.relabel f) (relabelStmts f body) (relabelStmts f orelse)
  | .withBlock isAsync items body =>
    .withBlock isAsync (items.map (WithItem.relabel f)) (relabelStmts f body)
  | .matchBlock subject cases => .matchBlock (subject.relabel f) (relabelCases f cases)
  | .raises exc cause => .raises (relabelOption f exc) (relabelOption f cause)
  | .tryBlock isGroup body handlers orelse final =>
    .tryBlock isGroup (relabelStmts f body) (relabelHandlers f handlers) (relabelStmts f orelse)
      (relabelStmts f final)
  | .assertion test message => .assertion (test.relabel f) (relabelOption f message)
  | .importNames names => .importNames names
  | .importFrom module names level => .importFrom module (names.map f.imported) level
  | .globals names => .globals names
  | .nonlocals names => .nonlocals names
  | .expr value => .expr (value.relabel f)
  | .pass => .pass
  | .leave => .leave
  | .next => .next

/-- Statements with other names and other aliases. -/
def relabelStmts (f : Relabelling) : List Stmt → List Stmt
  | [] => []
  | s :: ss => s.relabel f :: relabelStmts f ss

/-- An `except` clause with other names and other aliases. -/
def Handler.relabel (f : Relabelling) : Handler → Handler
  | .mk span type name body => .mk span (relabelOption f type) name (relabelStmts f body)

/-- `except` clauses with other names and other aliases. -/
def relabelHandlers (f : Relabelling) : List Handler → List Handler
  | [] => []
  | h :: hs => h.relabel f :: relabelHandlers f hs

/-- A `case` with other names and other aliases. -/
def Case.relabel (f : Relabelling) : Case → Case
  | .mk shape guard body =>
    .mk (shape.relabel f) (relabelOption f guard) (relabelStmts f body)

/-- `case`s with other names and other aliases. -/
def relabelCases (f : Relabelling) : List Case → List Case
  | [] => []
  | c :: cs => c.relabel f :: relabelCases f cs

end

/-! ## Lists and options

The functions on lists and options are those of the elements, applied to each. -/

section Lists

variable (f : Relabelling)

@[simp] theorem relabelExprs_eq (es : List Expr) : relabelExprs f es = es.map (Expr.relabel f) := by
  induction es <;> simp_all [relabelExprs]

@[simp] theorem relabelOption_eq (e : Option Expr) :
    relabelOption f e = e.map (Expr.relabel f) := by
  cases e <;> simp [relabelOption]

@[simp] theorem relabelKeys_eq (es : List (Option Expr)) :
    relabelKeys f es = es.map (Option.map (Expr.relabel f)) := by
  induction es <;> simp_all [relabelKeys]

@[simp] theorem relabelKeywords_eq (ks : List Keyword) :
    relabelKeywords f ks = ks.map (Keyword.relabel f) := by
  induction ks <;> simp_all [relabelKeywords]

@[simp] theorem relabelClauses_eq (cs : List Clause) :
    relabelClauses f cs = cs.map (Clause.relabel f) := by
  induction cs <;> simp_all [relabelClauses]

@[simp] theorem relabelParams_eq (ps : List Param) :
    relabelParams f ps = ps.map (Param.relabel f) := by
  induction ps <;> simp_all [relabelParams]

@[simp] theorem relabelParam_eq (p : Option Param) :
    relabelParam f p = p.map (Param.relabel f) := by
  cases p <;> simp [relabelParam]

@[simp] theorem relabelPatterns_eq (ps : List Pattern) :
    relabelPatterns f ps = ps.map (Pattern.relabel f) := by
  induction ps <;> simp_all [relabelPatterns]

@[simp] theorem relabelPattern_eq (p : Option Pattern) :
    relabelPattern f p = p.map (Pattern.relabel f) := by
  cases p <;> simp [relabelPattern]

@[simp] theorem relabelStmts_eq (ss : List Stmt) :
    relabelStmts f ss = ss.map (Stmt.relabel f) := by
  induction ss <;> simp_all [relabelStmts]

@[simp] theorem relabelHandlers_eq (hs : List Handler) :
    relabelHandlers f hs = hs.map (Handler.relabel f) := by
  induction hs <;> simp_all [relabelHandlers]

@[simp] theorem relabelCases_eq (cs : List Case) :
    relabelCases f cs = cs.map (Case.relabel f) := by
  induction cs <;> simp_all [relabelCases]

end Lists

/-! ## Constructs -/

/-- A construct with other names and other aliases in it.  An alias stays, since it does not tell
what kind of import it belongs to. -/
def Node.relabel (f : Relabelling) : Node → Node
  | .file body => .file (body.map (Stmt.relabel f))
  | .expr e => .expr (e.relabel f)
  | .stmt s => .stmt (s.relabel f)
  | .keyword k => .keyword (k.relabel f)
  | .clause c => .clause (c.relabel f)
  | .params p => .params (p.relabel f)
  | .param p => .param (p.relabel f)
  | .handler h => .handler (h.relabel f)
  | .withItem w => .withItem (w.relabel f)
  | .case c => .case (c.relabel f)
  | .pattern p => .pattern (p.relabel f)
  | .alias a => .alias a
  | .mark m => .mark m

/-- A child with other names and other aliases, in the same role. -/
def Child.relabel (f : Relabelling) (c : Child) : Child :=
  ⟨c.role, c.node.relabel f⟩

section Parts

variable (f : Relabelling)

@[simp] theorem Child.relabel_mk (role : Role) (n : Node) :
    (Child.mk role n).relabel f = ⟨role, n.relabel f⟩ := rfl

@[simp] theorem Child.relabel_plain (n : Node) :
    (Child.plain n).relabel f = .plain (n.relabel f) := rfl

@[simp] theorem Child.relabel_markPart (m : Mark) : (markPart m).relabel f = markPart m := rfl

@[simp] theorem map_relabel_exprParts (es : List Expr) :
    (exprParts es).map (Child.relabel f) = exprParts (es.map (Expr.relabel f)) := by
  simp only [exprParts, List.map_map]
  rfl

@[simp] theorem map_relabel_optParts (e : Option Expr) :
    (optParts e).map (Child.relabel f) = optParts (e.map (Expr.relabel f)) := by
  cases e <;> simp [optParts, Node.relabel]

@[simp] theorem map_relabel_stmtParts (role : Role) (ss : List Stmt) :
    (stmtParts role ss).map (Child.relabel f) = stmtParts role (ss.map (Stmt.relabel f)) := by
  simp only [stmtParts, List.map_map]
  rfl

@[simp] theorem map_relabel_clauseParts (cs : List Clause) :
    (clauseParts cs).map (Child.relabel f) = clauseParts (cs.map (Clause.relabel f)) := by
  cases cs with
  | nil => rfl
  | cons c cs =>
    simp only [clauseParts, List.map_cons, List.map_map]
    rfl

theorem flatMap_toList_map {α β : Type} (g : α → β) (os : List (Option α)) :
    (os.map (Option.map g)).flatMap Option.toList = (os.flatMap Option.toList).map g := by
  induction os with
  | nil => rfl
  | cons o os ih => cases o <;> simp [ih]

theorem ExprForm.children_relabel (form : ExprForm) :
    (form.relabel f).children = form.children.map (Child.relabel f) := by
  cases form <;>
    simp [ExprForm.relabel, ExprForm.children, Node.relabel, flatMap_toList_map]

theorem PatternForm.children_relabel (form : PatternForm) :
    (form.relabel f).children = form.children.map (Child.relabel f) := by
  cases form <;>
    simp [PatternForm.relabel, PatternForm.children, Node.relabel, Function.comp_def,
      Option.toList_map]

theorem Params.children_relabel (p : Params) :
    (p.relabel f).children = p.children.map (Child.relabel f) := by
  obtain ⟨posOnly, args, vararg, kwOnly, kwDefaults, kwarg, defaults⟩ := p
  simp [Params.relabel, Params.children, Node.relabel, flatMap_toList_map, Function.comp_def,
    Option.toList_map]

theorem StmtForm.children_relabel {form : StmtForm}
    (h : ∀ module names level, form ≠ .importFrom module names level) :
    (form.relabel f).children = form.children.map (Child.relabel f) := by
  cases form
  case importFrom => exact absurd rfl (h _ _ _)
  all_goals simp [StmtForm.relabel, StmtForm.children, Node.relabel, Function.comp_def]

end Parts

/-! ## Traversals side by side -/

/-- Two children in the same role, of constructs that are related. -/
def Child.Mirrors (R : Node → Node → Prop) (c d : Child) : Prop :=
  c.role = d.role ∧ R c.node d.node

/-- Two steps out of related constructs, in the same role. -/
def Step.Mirrors (R : Node → Node → Prop) (s t : Step) : Prop :=
  s.role = t.role ∧ R s.parent t.parent

/-- Two occurrences of related constructs, with related constructs around them. -/
structure Occurrence.Mirrors (R : Node → Node → Prop) (o p : Occurrence) : Prop where
  node : R o.node p.node
  trail : List.Forall₂ (Step.Mirrors R) o.trail p.trail

namespace Node

/-- Related constructs stand at the same place, and their parts are related. -/
structure IsMirror (R : Node → Node → Prop) : Prop where
  start? {n m : Node} (h : R n m) : n.start? = m.start?
  children {n m : Node} (h : R n m) : List.Forall₂ (Child.Mirrors R) n.children m.children

end Node

/-- What is gathered from related members is related. -/
theorem forall₂_flatMap {α β γ δ : Type} {S : α → β → Prop} {P : γ → δ → Prop} {xs : List α}
    {ys : List β} {f : α → List γ} {g : β → List δ} (h : List.Forall₂ S xs ys)
    (hfg : ∀ x ∈ xs, ∀ y, S x y → List.Forall₂ P (f x) (g y)) :
    List.Forall₂ P (xs.flatMap f) (ys.flatMap g) := by
  induction h with
  | nil => exact .nil
  | @cons x y xs ys hxy _ ih =>
    rw [List.flatMap_cons, List.flatMap_cons]
    refine List.rel_append (hfg x List.mem_cons_self y hxy) (ih fun x hx => ?_)
    exact hfg x (List.mem_cons_of_mem _ hx)

theorem flatMap_eq_of_forall₂ {α β γ : Type} {S : α → β → Prop} {xs : List α} {ys : List β}
    {f : α → List γ} {g : β → List γ} (h : List.Forall₂ S xs ys)
    (hfg : ∀ x ∈ xs, ∀ y, S x y → f x = g y) : xs.flatMap f = ys.flatMap g := by
  rw [← List.forall₂_eq_eq_eq]
  refine forall₂_flatMap h fun x hx y hxy => ?_
  rw [List.forall₂_eq_eq_eq]
  exact hfg x hx y hxy

namespace Node

namespace IsMirror

variable {R : Node → Node → Prop} (hR : IsMirror R) {n m : Node}
include hR

theorem places_eq (n : Node) {m : Node} (h : R n m) :
    places Node.start? n = places Node.start? m := by
  rw [Node.places_eq, Node.places_eq, hR.start? h]
  congr 1
  exact flatMap_eq_of_forall₂ (hR.children h) fun c hc d hcd => places_eq c.node hcd.2
termination_by sizeOf n
decreasing_by exact sizeOf_lt_of_mem_children hc

theorem reference?_eq (h : R n m) : reference? Node.start? n = reference? Node.start? m := by
  unfold reference?
  rw [hR.start? h, hR.places_eq n h]

theorem keyed_mirrors {cs ds : List Child} (h : List.Forall₂ (Child.Mirrors R) cs ds)
    (last : Position) :
    List.Forall₂ (fun x y => x.1 = y.1 ∧ Child.Mirrors R x.2 y.2)
      (keyed Node.start? last cs) (keyed Node.start? last ds) := by
  induction h generalizing last with
  | nil => exact .nil
  | @cons c d cs ds hcd _ ih =>
    rw [keyed, keyed, hR.reference?_eq hcd.2]
    exact .cons ⟨rfl, hcd⟩ (ih _)

end IsMirror

end Node

/-- Lists that are related member by member stay so when they are sorted by what the members have in
common. -/
theorem forall₂_sortBy {α β κ : Type} {R : α → β → Prop} (key : α → κ) (key' : β → κ)
    (le : κ → κ → Bool) {xs : List α} {ys : List β}
    (h : List.Forall₂ (fun x y => key x = key' y ∧ R x y) xs ys) :
    List.Forall₂ (fun x y => key x = key' y ∧ R x y)
      (sortBy (fun a b => le (key a) (key b)) xs)
      (sortBy (fun a b => le (key' a) (key' b)) ys) := by
  have hinsert {x : α} {y : β} (hxy : key x = key' y ∧ R x y) {xs : List α} {ys : List β}
      (h : List.Forall₂ (fun x y => key x = key' y ∧ R x y) xs ys) :
      List.Forall₂ (fun x y => key x = key' y ∧ R x y)
        (insertBy (fun a b => le (key a) (key b)) x xs)
        (insertBy (fun a b => le (key' a) (key' b)) y ys) := by
    induction h with
    | nil => exact .cons hxy .nil
    | @cons a b as bs hab hrest ih =>
      rw [insertBy, insertBy, hxy.1, hab.1]
      split
      · exact .cons hxy (.cons hab hrest)
      · exact .cons hab ih
  induction h with
  | nil => exact .nil
  | cons hxy _ ih => exact hinsert hxy ih

namespace Node

namespace IsMirror

variable {R : Node → Node → Prop} (hR : IsMirror R) {n m : Node}
include hR

theorem orderedChildren (h : R n m) :
    List.Forall₂ (Child.Mirrors R) (orderedChildren Node.start? n)
      (orderedChildren Node.start? m) := by
  have hsorted := forall₂_sortBy Prod.fst Prod.fst Position.le
    (hR.keyed_mirrors (hR.children h) ⟨0, 0⟩)
  rw [Node.orderedChildren, Node.orderedChildren, List.forall₂_map_left_iff,
    List.forall₂_map_right_iff]
  exact hsorted.imp fun _ _ hxy => hxy.2

/-- Traversals of related constructs meet related constructs, one after the other. -/
theorem occurrences (n : Node) {m : Node} (h : R n m) {trail trail' : List Step}
    (htrail : List.Forall₂ (Step.Mirrors R) trail trail') :
    List.Forall₂ (Occurrence.Mirrors R) (n.occurrences trail) (m.occurrences trail') := by
  rw [Node.occurrences, Node.occurrences, occurrencesBy_eq, occurrencesBy_eq]
  refine forall₂_flatMap (hR.orderedChildren h) fun c hc d hcd => ?_
  have hpart := (mem_orderedChildren Node.start?).1 hc
  have htrail' : List.Forall₂ (Step.Mirrors R) (⟨n, c.role⟩ :: trail) (⟨m, d.role⟩ :: trail') :=
    .cons ⟨hcd.1, h⟩ htrail
  exact .cons ⟨hcd.2, htrail'⟩ (occurrences c.node hcd.2 htrail')
termination_by sizeOf n
decreasing_by exact sizeOf_lt_of_mem_children hpart

end IsMirror

/-! ## Relabelled constructs -/

/-- A construct and the same one relabelled, in one of some ways.  The statements of a file may each
be relabelled in another way. -/
inductive Relabels (P : Relabelling → Prop) : Node → Node → Prop
  | node {f : Relabelling} (hf : P f) (n : Node) : Relabels P n (n.relabel f)
  | importedAlias {f : Relabelling} (hf : P f) (a : Alias) :
      Relabels P (.alias a) (.alias (f.imported a))
  | file {body body' : List Stmt}
      (h : List.Forall₂ (fun s s' => ∃ f, P f ∧ s' = s.relabel f) body body') :
      Relabels P (.file body) (.file body')

variable {P : Relabelling → Prop} {f : Relabelling}

theorem mirrors_map_relabel (hf : P f) (cs : List Child) :
    List.Forall₂ (Child.Mirrors (Relabels P)) cs (cs.map (Child.relabel f)) := by
  rw [List.forall₂_map_right_iff, List.forall₂_same]
  intro c _
  exact ⟨rfl, .node hf c.node⟩

/-- Relabelling a tree keeps its shape. -/
theorem mirrors_children_relabel (hf : P f) (n : Node) :
    List.Forall₂ (Child.Mirrors (Relabels P)) n.children (n.relabel f).children := by
  have hsame {n : Node} (h : (n.relabel f).children = n.children.map (Child.relabel f)) :
      List.Forall₂ (Child.Mirrors (Relabels P)) n.children (n.relabel f).children := by
    rw [h]
    exact mirrors_map_relabel hf n.children
  match n with
  | .stmt (.node _ form) =>
    by_cases h : ∃ module names level, form = .importFrom module names level
    · obtain ⟨module, names, level, rfl⟩ := h
      show List.Forall₂ _ (names.map fun a => Child.plain (.alias a))
        ((names.map f.imported).map fun a => Child.plain (.alias a))
      rw [List.map_map, List.forall₂_map_left_iff, List.forall₂_map_right_iff, List.forall₂_same]
      intro a _
      exact ⟨rfl, .importedAlias hf a⟩
    · refine hsame (StmtForm.children_relabel f fun module names level hform => ?_)
      exact h ⟨module, names, level, hform⟩
  | .expr (.node _ form) => exact hsame (form.children_relabel f)
  | .pattern (.node _ form) => exact hsame (form.children_relabel f)
  | .params p => exact hsame (p.children_relabel f)
  | .file _ | .keyword (.mk ..) | .clause (.mk ..) | .param (.mk ..) | .handler (.mk ..)
  | .withItem ⟨_, _⟩ | .case (.mk ..) | .alias _ | .mark _ =>
    refine hsame ?_
    simp [Node.relabel, Node.children, Keyword.relabel, Clause.relabel, Param.relabel,
      Handler.relabel, WithItem.relabel, Case.relabel]

theorem start?_relabel (f : Relabelling) (n : Node) : n.start? = (n.relabel f).start? := by
  match n with
  | .file _ | .params _ | .clause _ | .withItem _ | .case _ | .alias _ | .mark _ => rfl
  | .expr (.node _ _) | .stmt (.node _ _) | .pattern (.node _ _) | .keyword (.mk ..)
  | .param (.mk ..) | .handler (.mk ..) => rfl

theorem isMirror_relabels (P : Relabelling → Prop) : IsMirror (Relabels P) where
  start? {n m} h := by
    cases h with
    | @node f => exact start?_relabel f n
    | @importedAlias f _ a => exact congrArg (fun span => some span.start) (f.span_imported a).symm
    | file => rfl
  children {n m} h := by
    cases h with
    | node hf => exact mirrors_children_relabel hf n
    | importedAlias => exact .nil
    | @file body body' h =>
      simp only [Node.children, stmtParts, List.forall₂_map_left_iff, List.forall₂_map_right_iff]
      refine h.imp fun s s' hs => ?_
      obtain ⟨f, hf, rfl⟩ := hs
      exact ⟨rfl, .node hf (.stmt s)⟩

end Node

end RouteLens
