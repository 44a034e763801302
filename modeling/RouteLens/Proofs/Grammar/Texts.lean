import Mathlib.Data.Option.Basic
import RouteLens.Grammar.Quoted
import RouteLens.Proofs.Token.Weight
import RouteLens.Tree.Node

/-!
# Text constants

The text constants of a construct, and how long they can be.  A literal of a source text becomes
constants that are together no longer than its body: escapes only shorten it, and an expression
embedded in it is a stretch of it between two braces.
-/

namespace RouteLens

variable {edition : Nat} [CharacterNames edition]

section Parts

variable {P : Node → Prop}

@[simp] theorem forall_mem_exprParts {es : List Expr} :
    (∀ c ∈ exprParts es, P c.node) ↔ ∀ e ∈ es, P (.expr e) := by
  simp [exprParts, Child.plain]

@[simp] theorem forall_mem_optParts {e : Option Expr} :
    (∀ c ∈ optParts e, P c.node) ↔ ∀ e' ∈ e, P (.expr e') := by
  simp [optParts]

@[simp] theorem forall_mem_clauseParts {cs : List Clause} :
    (∀ c ∈ clauseParts cs, P c.node) ↔ ∀ c ∈ cs, P (.clause c) := by
  cases cs <;> simp [clauseParts]

end Parts

namespace Node

/-- A text constant somewhere in a construct. -/
inductive HoldsText : Node → String → Prop
  | constant (span : Span) (s : String) (marked : Bool) :
      HoldsText (.expr (.node span (.constant (.text s marked)))) s
  | part {n : Node} {c : Child} {s : String} :
      c ∈ n.children → HoldsText c.node s → HoldsText n s

/-- Every text constant of a construct is, with two quotes, no longer than a bound. -/
def TextsWithin (bound : Nat) (n : Node) : Prop :=
  ∀ s, n.HoldsText s → s.length + 2 ≤ bound

variable {bound bound' : Nat} {n : Node}

theorem TextsWithin.mono (h : n.TextsWithin bound) (hle : bound ≤ bound') :
    n.TextsWithin bound' :=
  fun s hs => Nat.le_trans (h s hs) hle

theorem textsWithin_constant {span : Span} {s : String} {marked : Bool} :
    TextsWithin bound (.expr (.node span (.constant (.text s marked)))) ↔ s.length + 2 ≤ bound := by
  constructor
  · exact fun h => h s (.constant span s marked)
  · intro h s' hs'
    cases hs' with
    | constant => exact h
    | part hc => simp [children, ExprForm.children] at hc

/-- A construct that is no text itself has the texts of its parts. -/
theorem textsWithin_iff
    (hn : ∀ span s marked, n ≠ .expr (.node span (.constant (.text s marked)))) :
    n.TextsWithin bound ↔ ∀ c ∈ n.children, c.node.TextsWithin bound := by
  constructor
  · exact fun h c hc s hs => h s (.part hc hs)
  · intro h s hs
    cases hs with
    | constant span s marked => exact absurd rfl (hn span s marked)
    | part hc hs => exact h _ hc s hs

theorem exists_bound_forall_mem {cs : List Child}
    (h : ∀ c ∈ cs, ∃ bound, c.node.TextsWithin bound) :
    ∃ bound, ∀ c ∈ cs, c.node.TextsWithin bound := by
  induction cs with
  | nil => exact ⟨0, nofun⟩
  | cons c cs ih =>
    obtain ⟨bound, hbound⟩ := h c List.mem_cons_self
    obtain ⟨bound', hbound'⟩ := ih fun c hc => h c (List.mem_cons_of_mem _ hc)
    refine ⟨max bound bound', List.forall_mem_cons.2 ⟨?_, fun c hc => ?_⟩⟩
    · exact hbound.mono (Nat.le_max_left ..)
    · exact (hbound' c hc).mono (Nat.le_max_right ..)

/-- A construct is finite, so that some bound holds of its texts. -/
theorem exists_textsWithin (n : Node) : ∃ bound, n.TextsWithin bound := by
  by_cases htext : ∃ span s marked, n = .expr (.node span (.constant (.text s marked)))
  · obtain ⟨span, s, marked, rfl⟩ := htext
    exact ⟨s.length + 2, textsWithin_constant.2 (Nat.le_refl _)⟩
  · obtain ⟨bound, hbound⟩ := exists_bound_forall_mem fun c (hc : c ∈ n.children) =>
      exists_textsWithin c.node
    refine ⟨bound, (textsWithin_iff fun span s marked heq => ?_).2 hbound⟩
    exact htext ⟨span, s, marked, heq⟩
termination_by sizeOf n
decreasing_by exact sizeOf_lt_of_mem_children hc

@[simp] theorem textsWithin_markPart (m : Mark) : TextsWithin bound (markPart m).node := by
  rw [markPart, Child.plain, textsWithin_iff (by simp), children]
  simp

@[grind =] theorem textsWithin_keyword {span : Span} {name : Option String} {value : Expr} :
    TextsWithin bound (.keyword (.mk span name value)) ↔ TextsWithin bound (.expr value) := by
  rw [textsWithin_iff (by simp), children, forall_mem_exprParts]
  simp

@[grind =] theorem textsWithin_clause {isAsync : Bool} {target iter : Expr} {filters : List Expr} :
    TextsWithin bound (.clause (.mk isAsync target iter filters)) ↔
      TextsWithin bound (.expr target) ∧ TextsWithin bound (.expr iter) ∧
        ∀ e ∈ filters, TextsWithin bound (.expr e) := by
  rw [textsWithin_iff (by simp), children, List.forall_mem_cons, List.forall_mem_cons,
    forall_mem_exprParts]
  rfl

@[grind =] theorem textsWithin_param {span : Span} {name : String} {typeExpr : Option Expr} :
    TextsWithin bound (.param (.mk span name typeExpr)) ↔
      ∀ e ∈ typeExpr, TextsWithin bound (.expr e) := by
  rw [textsWithin_iff (by simp), children, forall_mem_optParts]

@[grind =] theorem textsWithin_params {posOnly args kwOnly : List Param}
    {vararg kwarg : Option Param} {kwDefaults : List (Option Expr)} {defaults : List Expr} :
    TextsWithin bound (.params (.mk posOnly args vararg kwOnly kwDefaults kwarg defaults)) ↔
      (∀ p ∈ posOnly, TextsWithin bound (.param p)) ∧
      (∀ p ∈ args, TextsWithin bound (.param p)) ∧
      (∀ p ∈ vararg, TextsWithin bound (.param p)) ∧
      (∀ p ∈ kwOnly, TextsWithin bound (.param p)) ∧
      (∀ e, some e ∈ kwDefaults → TextsWithin bound (.expr e)) ∧
      (∀ p ∈ kwarg, TextsWithin bound (.param p)) ∧
      ∀ e ∈ defaults, TextsWithin bound (.expr e) := by
  rw [textsWithin_iff (by simp), children, Params.children]
  simp [Child.plain, or_imp, forall_and]

end Node

/-- The texts of an expression are within a bound. -/
abbrev Expr.TextsWithin (bound : Nat) (e : Expr) : Prop :=
  Node.TextsWithin bound (.expr e)

/-- A constant that is a text is within a bound. -/
@[grind =]
def Constant.TextWithin (bound : Nat) : Constant → Prop
  | .text s _ => s.length + 2 ≤ bound
  | _ => True

/-- The texts of a form are within a bound. -/
@[grind =]
def ExprForm.TextsWithin (bound : Nat) : ExprForm → Prop
  | .bool _ values => ∀ e ∈ values, e.TextsWithin bound
  | .named target value => target.TextsWithin bound ∧ value.TextsWithin bound
  | .binary left _ right => left.TextsWithin bound ∧ right.TextsWithin bound
  | .unary _ operand => operand.TextsWithin bound
  | .lambda params body => Node.TextsWithin bound (.params params) ∧ body.TextsWithin bound
  | .choice test body orelse =>
    test.TextsWithin bound ∧ body.TextsWithin bound ∧ orelse.TextsWithin bound
  | .dict keys values =>
    (∀ e, some e ∈ keys → e.TextsWithin bound) ∧ ∀ e ∈ values, e.TextsWithin bound
  | .set elements => ∀ e ∈ elements, e.TextsWithin bound
  | .listComp element clauses | .setComp element clauses | .generator element clauses =>
    element.TextsWithin bound ∧ ∀ c ∈ clauses, Node.TextsWithin bound (.clause c)
  | .dictComp key value clauses =>
    key.TextsWithin bound ∧ value.TextsWithin bound ∧
      ∀ c ∈ clauses, Node.TextsWithin bound (.clause c)
  | .await value => value.TextsWithin bound
  | .yield value => ∀ e ∈ value, e.TextsWithin bound
  | .yieldFrom value => value.TextsWithin bound
  | .compare left _ comparators =>
    left.TextsWithin bound ∧ ∀ e ∈ comparators, e.TextsWithin bound
  | .call func args keywords =>
    func.TextsWithin bound ∧ (∀ e ∈ args, e.TextsWithin bound) ∧
      ∀ k ∈ keywords, Node.TextsWithin bound (.keyword k)
  | .formatted value _ spec => value.TextsWithin bound ∧ ∀ e ∈ spec, e.TextsWithin bound
  | .joined values => ∀ e ∈ values, e.TextsWithin bound
  | .constant value => value.TextWithin bound
  | .attribute value _ => value.TextsWithin bound
  | .subscript value index => value.TextsWithin bound ∧ index.TextsWithin bound
  | .starred value => value.TextsWithin bound
  | .name _ => True
  | .list elements => ∀ e ∈ elements, e.TextsWithin bound
  | .tuple elements => ∀ e ∈ elements, e.TextsWithin bound
  | .slice lower upper step =>
    (∀ e ∈ lower, e.TextsWithin bound) ∧ (∀ e ∈ upper, e.TextsWithin bound) ∧
      ∀ e ∈ step, e.TextsWithin bound

@[grind =] theorem Expr.textsWithin_node {bound : Nat} {span : Span} {form : ExprForm} :
    Expr.TextsWithin bound (.node span form) ↔ form.TextsWithin bound := by
  by_cases htext : ∃ s marked, form = .constant (.text s marked)
  · obtain ⟨s, marked, rfl⟩ := htext
    exact Node.textsWithin_constant
  · rw [Expr.TextsWithin, Node.textsWithin_iff (by grind), Node.children]
    cases form with
    | constant value => cases value <;> simp_all [ExprForm.children, ExprForm.TextsWithin,
        Constant.TextWithin]
    | _ =>
      simp +contextual [ExprForm.children, ExprForm.TextsWithin, Child.plain, or_imp, forall_and]

namespace Quoted

/-! ## Escapes -/

theorem length_nameEscape?_lt {cs rest : List Char} {named : Char}
    (h : nameEscape? cs = some (named, rest)) : rest.length < cs.length := by
  unfold nameEscape? at h
  split at h
  · next cs =>
    simp only [Option.bind_eq_bind, Option.bind_eq_some_iff] at h
    obtain ⟨_, -, _, -, heq⟩ := h
    cases heq
    simp only [List.length_drop, List.length_cons]
    omega
  · cases h

/-- Replacing escapes makes no text longer. -/
theorem length_unescape_le {fuel : Nat} {cs out : List Char} (h : unescape fuel cs = some out) :
    out.length ≤ cs.length := by
  fun_induction unescape fuel cs generalizing out with
  | case1 => cases h
  | case2 =>
    cases h
    exact Nat.le_refl _
  | case3 fuel c cs _ ih =>
    have hlength := ih h
    simp only [List.length_cons]
    omega
  | case4 | case5 | case6 =>
    -- An escape by code point takes at least its two first characters.
    rename_i ih
    simp only [Option.bind_eq_bind, Option.bind_eq_some_iff] at h
    obtain ⟨_, -, rest, hrest, heq⟩ := h
    cases heq
    have hlength := ih hrest
    simp only [List.length_cons, List.length_drop] at hlength ⊢
    omega
  | case7 =>
    rename_i ih
    simp only [Option.bind_eq_bind, Option.bind_eq_some_iff] at h
    obtain ⟨⟨named, behind⟩, hnamed, rest, hrest, heq⟩ := h
    cases heq
    have hlength := ih behind hrest
    have hbehind := length_nameEscape?_lt hnamed
    simp only [List.length_cons]
    omega
  | case8 | case9 | case10 | case11 =>
    rename_i ih
    obtain ⟨rest, hrest, rfl⟩ := Option.map_eq_some_iff.1 h
    have hlength := ih hrest
    simp only [List.length_cons, List.length_drop] at hlength ⊢
    omega

theorem length_textOf?_le {isRaw : Bool} {body out : List Char}
    (h : textOf? isRaw body = some out) : out.length ≤ body.length := by
  unfold textOf? at h
  split at h
  · cases h
    exact Nat.le_refl _
  · exact length_unescape_le h

/-! ## Pieces -/

/-- How many plain characters some pieces have. -/
def plainLength : List Piece → Nat
  | [] => 0
  | .plain cs :: ps => cs.length + plainLength ps
  | .value _ :: ps => plainLength ps

theorem plainLength_append (ps qs : List Piece) :
    plainLength (ps ++ qs) = plainLength ps + plainLength qs := by
  induction ps with
  | nil => simp [plainLength]
  | cons p ps ih =>
    cases p <;> simp only [List.cons_append, plainLength, ih]
    omega

theorem plainLength_joinPieces (ps : List Piece) :
    plainLength (joinPieces ps) = plainLength ps := by
  fun_induction joinPieces ps with
  | case1 => rfl
  | case2 e ps ih => simpa [plainLength] using ih
  | case3 cs ps ds qs hjoin ih =>
    rw [hjoin] at ih
    simp only [plainLength, List.length_append] at ih ⊢
    omega
  | case4 cs ps hempty _ ih => simp [plainLength, ih, List.isEmpty_iff.1 hempty]
  | case5 cs ps _ _ ih => simp [plainLength, ih]

theorem length_le_plainLength {ps : List Piece} {cs : List Char} (h : .plain cs ∈ ps) :
    cs.length ≤ plainLength ps := by
  induction ps with
  | nil => cases h
  | cons p ps ih =>
    rcases List.mem_cons.1 h with rfl | h
    · exact Nat.le_add_right _ _
    · have hlength := ih h
      cases p <;> simp only [plainLength] <;> omega

/-- Joining pieces adds no value. -/
theorem mem_of_value_mem_joinPieces {ps : List Piece} {e : Expr} (h : .value e ∈ joinPieces ps) :
    .value e ∈ ps := by
  fun_induction joinPieces ps with
  | case1 => exact h
  | case2 e' ps ih =>
    rcases List.mem_cons.1 h with heq | h
    · rw [heq]
      exact List.mem_cons_self
    · exact List.mem_cons_of_mem _ (ih h)
  | case3 cs ps ds qs hjoin ih =>
    rcases List.mem_cons.1 h with heq | h
    · cases heq
    · exact List.mem_cons_of_mem _ (ih (hjoin ▸ List.mem_cons_of_mem _ h))
  | case4 cs ps _ _ ih => exact List.mem_cons_of_mem _ (ih h)
  | case5 cs ps _ _ ih =>
    rcases List.mem_cons.1 h with heq | h
    · cases heq
    · exact List.mem_cons_of_mem _ (ih h)

/-! ## Stretches of a literal -/

/-- Characters are taken from those that are left. -/
theorem length_takePlain_le {isRaw inSpec inName : Bool} {acc acc' : List Char} {pos : Position}
    {cs : List Char} {ending : PlainEnd} {k : Cursor}
    (h : takePlain isRaw inSpec inName acc pos cs = some (acc', ending, k)) :
    acc'.length + k.rest.length ≤ acc.length + cs.length := by
  fun_induction takePlain isRaw inSpec inName acc pos cs with
  | case1 | case6 | case7 =>
    cases h
    exact Nat.le_refl _
  | case2 | case3 | case4 | case9 =>
    rename_i ih
    have hlength := ih h
    simp only [List.length_cons] at hlength ⊢
    omega
  | case5 acc pos c cs =>
    cases h
    simp only [List.length_cons, List.length_drop]
    omega
  | case8 => cases h

theorem rest_ne_nil_of_openBrace {isRaw inSpec inName : Bool} {acc acc' : List Char}
    {pos : Position} {cs : List Char} {k : Cursor}
    (h : takePlain isRaw inSpec inName acc pos cs = some (acc', .openBrace, k)) : k.rest ≠ [] := by
  fun_induction takePlain isRaw inSpec inName acc pos cs with
  | case1 | case5 | case7 | case8 => cases h
  | case2 | case3 | case4 | case9 =>
    rename_i ih
    exact ih h
  | case6 =>
    cases h
    simp

theorem length_takeExpr_le {st : ExprScan} {pending : Nat} {acc acc' : List Char} {pos : Position}
    {cs : List Char} {k : Cursor} (h : takeExpr st pending acc pos cs = some (acc', k)) :
    acc'.length + k.rest.length ≤ acc.length + cs.length := by
  fun_induction takeExpr st pending acc pos cs with
  | case1 => cases h
  | case2 | case5 =>
    rename_i ih
    have hlength := ih h
    simp only [List.length_cons] at hlength ⊢
    omega
  | case3 => cases h
  | case4 =>
    cases h
    exact Nat.le_refl _

theorem length_takeDebug_le (written : List Char) (k : Cursor) :
    (takeDebug written k).2.rest.length ≤ k.rest.length ∧
      ((takeDebug written k).1.getD []).length + (takeDebug written k).2.rest.length ≤
        written.length + k.rest.length := by
  unfold takeDebug
  split
  · rename_i cs hrest
    have hblanks : (cs.takeWhile isFormatBlank).length ≤ cs.length :=
      (List.takeWhile_prefix isFormatBlank).length_le
    simp only [hrest, Option.getD_some, List.length_append, List.length_cons,
      Cursor.length_rest_skip]
    omega
  · simp

theorem length_takeConversion_le {k k' : Cursor} {conversion : Option Conversion}
    (h : takeConversion k = some (conversion, k')) : k'.rest.length ≤ k.rest.length := by
  unfold takeConversion at h
  split at h
  · simp only [Option.bind_eq_bind, Option.bind_eq_some_iff] at h
    obtain ⟨_, -, heq⟩ := h
    cases heq
    rw [Cursor.length_rest_skip]
    omega
  · cases h
  · cases h
    exact Nat.le_refl _

/-! ## Whole literals -/

section Literals

variable {bound : Nat} {embedded : Embedded} {marked isRaw : Bool} {whole own : Span}

/-- An embedded expression between its braces and the quotes of the literal is within the bound, and
so are its texts. -/
def EmbedsWithin (bound : Nat) (embedded : Embedded) : Prop :=
  ∀ pos cs e, cs.length + 4 ≤ bound → embedded pos cs = some e → e.TextsWithin bound

/-- The texts of some pieces are within a bound. -/
def PiecesWithin (bound : Nat) (ps : List Piece) : Prop :=
  plainLength ps + 2 ≤ bound ∧ ∀ e, .value e ∈ ps → e.TextsWithin bound

theorem textsWithin_toExpr {ps : List Piece} (h : PiecesWithin bound ps) {p : Piece} (hp : p ∈ ps)
    (span : Span) : (p.toExpr marked span).TextsWithin bound := by
  cases p with
  | plain cs =>
    rw [Piece.toExpr, Expr.textsWithin_node, ExprForm.TextsWithin, Constant.TextWithin,
      String.length_ofList]
    have hlength := length_le_plainLength hp
    have hbound := h.1
    omega
  | value e => exact h.2 e hp

theorem exists_of_mem_specExprs {ps : List Piece} {e : Expr}
    (h : e ∈ specExprs marked whole own ps) : ∃ p ∈ ps, ∃ span, e = p.toExpr marked span := by
  fun_induction specExprs marked whole own ps with
  | case1 => cases h
  | case2 p => exact ⟨p, List.mem_cons_self, own, List.mem_singleton.1 h⟩
  | case3 p ps _ ih =>
    rcases List.mem_cons.1 h with rfl | h
    · exact ⟨p, List.mem_cons_self, whole, rfl⟩
    · obtain ⟨q, hq, span, rfl⟩ := ih h
      exact ⟨q, List.mem_cons_of_mem _ hq, span, rfl⟩

theorem PiecesWithin.joinPieces {ps : List Piece} (h : PiecesWithin bound ps) :
    PiecesWithin bound (joinPieces ps) :=
  ⟨by rw [plainLength_joinPieces]; exact h.1, fun e he => h.2 e (mem_of_value_mem_joinPieces he)⟩

/-- Pieces are taken from the text before a cursor, and their values are within a bound. -/
def TakesWithin (bound : Nat) (k : Cursor) (ps : List Piece) (k' : Cursor) : Prop :=
  plainLength ps + k'.rest.length ≤ k.rest.length ∧
    ∀ e, .value e ∈ ps → e.TextsWithin bound

theorem TakesWithin.piecesWithin {k k' : Cursor} {ps : List Piece} (h : TakesWithin bound k ps k')
    (hk : k.rest.length + 2 ≤ bound) : PiecesWithin bound ps :=
  ⟨by have := h.1; omega, h.2⟩

/-- The texts of a format specification are no longer than the literal that it stands in. -/
theorem takeSpec_within {parts : Cursor → Option (List Piece × Cursor)} {k k' : Cursor}
    {spec : Option Expr} (hk : k.rest.length + 2 ≤ bound)
    (hparts : ∀ k ps k', k.rest.length + 2 ≤ bound → parts k = some (ps, k') →
      TakesWithin bound k ps k')
    (h : takeSpec marked whole own parts k = some (spec, k')) :
    k'.rest.length ≤ k.rest.length ∧ ∀ e ∈ spec, e.TextsWithin bound := by
  unfold takeSpec at h
  split at h
  · simp only [Option.bind_eq_bind, Option.bind_eq_some_iff] at h
    obtain ⟨⟨ps, k₁⟩, hps, heq⟩ := h
    cases heq
    have hnext : k.next.rest.length ≤ k.rest.length := by simp [Cursor.rest_next]
    have htakes := hparts k.next ps k₁ (by omega) hps
    have hjoined := (htakes.piecesWithin (by omega)).joinPieces
    refine ⟨by have := htakes.1; simp only; omega, ?_⟩
    rintro _ ⟨⟩
    rw [Expr.textsWithin_node, ExprForm.TextsWithin]
    intro e he
    obtain ⟨p, hp, span, rfl⟩ := exists_of_mem_specExprs he
    exact textsWithin_toExpr hjoined hp span
  · cases h
    exact ⟨Nat.le_refl _, by simp⟩

/-- The texts of an embedded value are no longer than the literal that it stands in. -/
theorem valuePieces_within (hembedded : EmbedsWithin bound embedded)
    {spec : Cursor → Option (Option Expr × Cursor)} {k k' : Cursor} {ps : List Piece}
    (hk : k.rest.length + 2 ≤ bound) (hne : k.rest ≠ [])
    (hspec : ∀ k e k', k.rest.length + 2 ≤ bound → spec k = some (e, k') →
      k'.rest.length ≤ k.rest.length ∧ ∀ e' ∈ e, e'.TextsWithin bound)
    (h : valuePieces embedded spec whole k = some (ps, k')) : TakesWithin bound k ps k' := by
  simp only [valuePieces, Option.bind_eq_bind, Option.bind_eq_some_iff] at h
  obtain ⟨⟨written, k₁⟩, hwritten, value, hvalue, ⟨conversion, k₂⟩, hconversion, ⟨e, k₃⟩, he, _,
    hclose, heq⟩ := h
  simp only at hvalue hconversion he hclose heq
  have hopen : k.next.rest.length < k.rest.length := by
    have := List.length_pos_iff.2 hne
    rw [Cursor.rest_next, List.length_drop]
    omega
  have hexpr := length_takeExpr_le hwritten
  obtain ⟨hbehind, hdebug⟩ := length_takeDebug_le written.reverse k₁
  have hconv := length_takeConversion_le hconversion
  simp only [List.length_nil, List.length_reverse] at hexpr hdebug
  obtain ⟨hspecLength, hspecTexts⟩ := hspec k₂ e k₃ (by omega) he
  -- The closing brace stands behind everything that was taken.
  have hbrace : k₃.next.rest.length < k₃.rest.length := by
    cases hrest : k₃.rest with
    | nil =>
      rw [hrest] at hclose
      cases hclose
    | cons c cs => simp [Cursor.rest_next, hrest]
  have hvalueTexts : value.TextsWithin bound :=
    hembedded _ _ _ (by rw [List.length_reverse]; omega) hvalue
  cases heq
  refine ⟨by simp only [plainLength]; omega, fun item hitem => ?_⟩
  simp only [List.mem_cons, Piece.value.injEq, reduceCtorEq, List.not_mem_nil, or_false,
    false_or] at hitem
  subst hitem
  exact Expr.textsWithin_node.2 ⟨hvalueTexts, hspecTexts⟩

/-- The pieces of a formatted text hold no text that is longer than the literal. -/
theorem pieces_within (hembedded : EmbedsWithin bound embedded) {fuel level : Nat} {k k' : Cursor}
    {ps : List Piece} (hk : k.rest.length + 2 ≤ bound)
    (h : pieces embedded marked isRaw whole own fuel level k = some (ps, k')) :
    TakesWithin bound k ps k' := by
  induction fuel generalizing level k k' ps with
  | zero => cases h
  | succ fuel ih =>
    simp only [pieces, Option.bind_eq_bind, Option.bind_eq_some_iff] at h
    obtain ⟨⟨plain, ending, k₁⟩, hplain, text, htext, h⟩ := h
    have hplainLength := length_takePlain_le hplain
    have htextLength := length_textOf?_le htext
    simp only [List.length_reverse, List.length_nil] at hplainLength htextLength
    have hlast (h : some ([Piece.plain text], k₁) = some (ps, k')) : TakesWithin bound k ps k' := by
      cases h
      exact ⟨by simp only [plainLength]; omega, by simp⟩
    simp only at h
    cases ending with
    | text =>
      simp only [Option.pure_def, Option.ite_none_right_eq_some] at h
      exact hlast h.2
    | closeBrace => exact hlast h
    | doubledBrace =>
      obtain ⟨⟨rest, k₂⟩, hrest, heq⟩ := Option.bind_eq_some_iff.1 h
      cases heq
      obtain ⟨hlength, htexts⟩ := ih (by omega) hrest
      refine ⟨by simp only [plainLength]; omega, fun e he => htexts e ?_⟩
      simpa using he
    | openBrace =>
      simp only [Option.bind_eq_some_iff] at h
      obtain ⟨_, -, ⟨item, k₂⟩, hitem, ⟨rest, k₃⟩, hrest, heq⟩ := h
      obtain ⟨hitemLength, hitemTexts⟩ :=
        valuePieces_within hembedded (by omega) (rest_ne_nil_of_openBrace hplain)
          (fun _ _ _ hk h => takeSpec_within hk (fun _ _ _ hk h => ih hk h) h) hitem
      obtain ⟨hrestLength, hrestTexts⟩ := ih (by simp only; omega) hrest
      simp only at hrestLength
      cases heq
      constructor
      · simp only [List.cons_append, plainLength, plainLength_append]
        omega
      intro e he
      simp only [List.cons_append, List.mem_cons, reduceCtorEq, List.mem_append, false_or] at he
      exact he.elim (hitemTexts e) (hrestTexts e)

/-- The texts of a literal are within what it takes up. -/
theorem piecesOf_within {piece : TextPiece} {ps : List Piece}
    (hembedded : EmbedsWithin bound embedded) (hbody : piece.body.length + 2 ≤ bound)
    (h : piecesOf embedded marked whole piece own = some ps) :
    plainLength ps ≤ piece.body.length ∧ ∀ e, .value e ∈ ps → e.TextsWithin bound := by
  unfold piecesOf at h
  split at h
  · obtain ⟨⟨ps', k⟩, hps, rfl⟩ := Option.map_eq_some_iff.1 h
    obtain ⟨hlength, htexts⟩ := pieces_within hembedded hbody hps
    exact ⟨by simp only at hlength ⊢; omega, htexts⟩
  · obtain ⟨cs, hcs, rfl⟩ := Option.map_eq_some_iff.1 h
    exact ⟨by simpa [plainLength] using length_textOf?_le hcs, by simp⟩

/-- The weight of some literals. -/
def itemsWeight : List (TextPiece × Span) → Nat
  | [] => 0
  | i :: is => i.1.body.length + 2 + itemsWeight is

/-- The plain pieces of adjacent literals are together shorter than what was written. -/
theorem mapM_piecesOf_within {items : List (TextPiece × Span)} {parts : List (List Piece)}
    (hembedded : EmbedsWithin bound embedded) (hitems : itemsWeight items ≤ bound)
    (h : (items.mapM fun i => piecesOf embedded marked whole i.1 i.2) = some parts) :
    plainLength parts.flatten + 2 * items.length ≤ itemsWeight items ∧
      ∀ e, .value e ∈ parts.flatten → e.TextsWithin bound := by
  induction items generalizing parts with
  | nil =>
    cases h
    exact ⟨Nat.le_refl _, by simp⟩
  | cons i items ih =>
    simp only [List.mapM_cons, Option.bind_eq_bind, Option.bind_eq_some_iff] at h
    obtain ⟨ps, hps, rest, hrest, heq⟩ := h
    cases heq
    rw [itemsWeight] at hitems ⊢
    obtain ⟨hlength, htexts⟩ := piecesOf_within hembedded (by omega) hps
    obtain ⟨hrestLength, hrestTexts⟩ := ih (by omega) hrest
    rw [List.flatten_cons, plainLength_append, List.length_cons]
    refine ⟨by omega, fun e he => ?_⟩
    exact (List.mem_append.1 he).elim (htexts e) (hrestTexts e)

/-- The texts of adjacent literals are within what the literals take up together. -/
theorem concatenate_within {items : List (TextPiece × Span)} {e : Expr}
    (hembedded : EmbedsWithin bound embedded) (hitems : itemsWeight items ≤ bound)
    (h : concatenate embedded whole items = some e) : e.TextsWithin bound := by
  simp only [concatenate, Option.bind_eq_bind, Option.bind_eq_some_iff] at h
  obtain ⟨⟨first, span⟩, hfirst, h⟩ := h
  split at h
  · obtain ⟨parts, -, heq⟩ := Option.bind_eq_some_iff.1 h
    cases heq
    exact Expr.textsWithin_node.2 trivial
  · simp only [Option.bind_eq_some_iff] at h
    obtain ⟨_, -, parts, hparts, h⟩ := h
    obtain ⟨hlength, htexts⟩ := mapM_piecesOf_within hembedded hitems hparts
    have hsome : 0 < items.length := by
      cases items with
      | nil => cases hfirst
      | cons i items => simp
    have hjoined : PiecesWithin bound (joinPieces parts.flatten) :=
      PiecesWithin.joinPieces ⟨by omega, htexts⟩
    split at h
    · cases h
      rw [Expr.textsWithin_node, ExprForm.TextsWithin]
      intro e he
      obtain ⟨p, hp, rfl⟩ := List.mem_map.1 he
      exact textsWithin_toExpr hjoined hp whole
    · split at h
      · rename_i cs hcs
        cases h
        rw [hcs] at hjoined
        exact textsWithin_toExpr hjoined List.mem_cons_self whole
      · cases h
        rw [Expr.textsWithin_node, ExprForm.TextsWithin, Constant.TextWithin, String.length_empty]
        omega

end Literals

end Quoted

end RouteLens
