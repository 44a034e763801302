import RouteLens.Proofs.Grammar.Texts
import RouteLens.Tree.Naming

/-!
# Text constants of what is read

Contracts of the readers of expressions: from tokens of a weight within a bound, a reader leaves
tokens of a weight within the bound, and the texts of what it reads are within it too.  The contract
of a reader that nests others assumes theirs; `readsTexts_expression` ties them together.  At the
end, the text constants of a text that is read as an expression are shorter than the text
(`textsWithin_of_readExpr`), and so are those of a quoted annotation (`textsWithin_of_readQuoted`).
-/

open Std.Do

set_option mvcgen.warning false

namespace RouteLens

variable {edition : Nat} [CharacterNames edition]

namespace Reader

variable {α β : Type}

/-- What is said of a reader: states, and failures of which nothing is said. -/
abbrev Shape : PostShape := .arg ReadState (.except PUnit .pure)

theorem triple_iff {P : ReadState → Prop} {Q : α → ReadState → Prop} {r : Reader α} :
    (⦃fun s => ⌜P s⌝⦄ r ⦃⇓? a s => ⌜Q a s⌝⦄) ↔ ∀ s a s', P s → r s = some (a, s') → Q a s' := by
  constructor
  · intro h s a s' hs hr
    have hwp := h s hs
    simp only [WP.wp, PredTrans.apply, PredTrans.pushArg, StateT.run, hr] at hwp
    exact hwp
  · intro h s hs
    simp only [WP.wp, PredTrans.apply, PredTrans.pushArg, StateT.run]
    cases hr : r s with
    | none => trivial
    | some x => exact h s x.1 x.2 hs hr

/-- The tokens that are left are within a bound. -/
abbrev Left (bound : Nat) : Assertion Shape :=
  fun s => ⌜textWeight s.rest ≤ bound⌝

/-- A reader keeps within a bound. -/
abbrev Keeps (bound : Nat) (r : Reader α) : Prop :=
  ⦃Left bound⦄ r ⦃⇓? _ s => ⌜textWeight s.rest ≤ bound⌝⦄

/-- A reader keeps within a bound, and so does its result. -/
abbrev Yields (bound : Nat) (P : α → Prop) (r : Reader α) : Prop :=
  ⦃Left bound⦄ r ⦃⇓? a s => ⌜textWeight s.rest ≤ bound ∧ P a⌝⦄

variable {bound : Nat}

@[spec] theorem keeps_peek : Keeps bound peek := by
  refine triple_iff.2 fun s a s' hs h => ?_
  unfold peek at h
  split at h <;> cases h <;> exact hs

@[spec] theorem keeps_peekSecond : Keeps bound peekSecond := by
  refine triple_iff.2 fun s a s' hs h => ?_
  unfold peekSecond at h
  split at h <;> cases h <;> exact hs

@[spec] theorem keeps_here : Keeps bound here := by
  refine triple_iff.2 fun s a s' hs h => ?_
  unfold here at h
  split at h <;> cases h <;> exact hs

@[spec] theorem keeps_spanFrom (start : Position) : Keeps bound (spanFrom start) := by
  refine triple_iff.2 fun s a s' hs h => ?_
  cases h
  exact hs

@[spec] theorem keeps_take : Keeps bound take := by
  refine triple_iff.2 fun s a s' hs h => ?_
  unfold take at h
  split at h
  · cases h
  · rename_i l rest hrest
    rw [hrest, textWeight] at hs
    split at h <;> cases h <;> simp only <;> omega

@[spec] theorem failure_spec {Q : α → ReadState → Prop} :
    ⦃fun _ => ⌜True⌝⦄ (failure : Reader α) ⦃⇓? a s => ⌜Q a s⌝⦄ :=
  triple_iff.2 fun _ _ _ _ h => nomatch h

@[spec] theorem keeps_guard (p : Prop) [Decidable p] : Keeps bound (guard p) := by
  refine triple_iff.2 fun s a s' hs h => ?_
  change (if p then pure () else failure : Reader Unit) s = some (a, s') at h
  split at h <;> cases h
  exact hs

@[spec] theorem keeps_atOp (symbol : String) : Keeps bound (atOp symbol) := by
  mvcgen [atOp] <;> omega

@[spec] theorem keeps_atWord (word : String) : Keeps bound (atWord word) := by
  mvcgen [atWord] <;> omega

@[spec] theorem keeps_tryOp (symbol : String) : Keeps bound (tryOp symbol) := by
  mvcgen [tryOp] <;> omega

@[spec] theorem keeps_tryWord (word : String) : Keeps bound (tryWord word) := by
  mvcgen [tryWord] <;> omega

@[spec] theorem keeps_op (symbol : String) : Keeps bound (op symbol) := by
  mvcgen [op]
  all_goals omega

@[spec] theorem keeps_word (w : String) : Keeps bound (word w) := by
  mvcgen [word]
  all_goals omega

@[spec] theorem keeps_name : Keeps bound name := by
  mvcgen [name]
  all_goals omega

@[spec] theorem keeps_newline : Keeps bound newline := by
  mvcgen [newline]
  all_goals omega

theorem yields_collect {P : α → Prop} {r : Reader (Option α)}
    (h : Yields bound (fun o => ∀ a ∈ o, P a) r) (fuel : Nat) :
    Yields bound (fun as => ∀ a ∈ as, P a) (collect r fuel) := by
  induction fuel with
  | zero => mvcgen [collect]
  | succ fuel ih =>
    mvcgen [collect, h, ih]
    all_goals grind

theorem keeps_collect {r : Reader (Option α)} (h : Keeps bound r) (fuel : Nat) :
    Keeps bound (collect r fuel) := by
  induction fuel with
  | zero => mvcgen [collect]
  | succ fuel ih => mvcgen [collect, h, ih]

theorem yields_commaList {P : α → Prop} {item : Reader α} (h : Yields bound P item)
    (more : Token → Bool) (fuel : Nat) :
    Yields bound (fun r => ∀ a ∈ r.1, P a) (commaList item more fuel) := by
  induction fuel with
  | zero => mvcgen [commaList]
  | succ fuel ih =>
    mvcgen [commaList, h, ih]
    all_goals grind

end Reader

namespace Grammar

open Reader

variable {n : Nesting}

/-- A reader of expressions keeps their texts within every bound that the tokens are within. -/
def ReadsTexts (r : Reader Expr) : Prop :=
  ∀ bound, Yields bound (Expr.TextsWithin bound) r

@[grind =] theorem textsWithin_leaf {bound : Nat} {l : Lexeme} {form : ExprForm} :
    (leaf l form).TextsWithin bound ↔ form.TextsWithin bound :=
  Expr.textsWithin_node

@[spec] theorem keeps_separator {bound : Nat} (close : String) : Keeps bound (separator close) := by
  mvcgen [separator]
  all_goals omega

@[spec] theorem keeps_atClause {bound : Nat} : Keeps bound atClause := by
  mvcgen [atClause]
  all_goals omega

@[spec] theorem keeps_compareOp? {bound : Nat} : Keeps bound compareOp? := by
  mvcgen [compareOp?]
  all_goals omega

/-- The texts of the arguments of a call are within a bound. -/
@[grind =]
def ArgDraft.TextsWithin (bound : Nat) (d : ArgDraft) : Prop :=
  (∀ e ∈ d.args, e.TextsWithin bound) ∧ ∀ k ∈ d.keywords, Node.TextsWithin bound (.keyword k)

/-- The texts of an entry of a dictionary are within a bound. -/
@[grind =]
def EntryWithin (bound : Nat) (x : Option Expr × Expr) : Prop :=
  (∀ e ∈ x.1, e.TextsWithin bound) ∧ x.2.TextsWithin bound

@[grind =] theorem textsWithin_entries {bound : Nat} {entries : List (Option Expr × Expr)} :
    (ExprForm.dict (entries.map Prod.fst) (entries.map Prod.snd)).TextsWithin bound ↔
      ∀ x ∈ entries, EntryWithin bound x := by
  simp [ExprForm.TextsWithin, EntryWithin, forall_and]
  grind

theorem textWithin_toConstant {bound : Nat} (c : Numeral) : c.toConstant.TextWithin bound := by
  cases c <;> trivial

variable (bound : Nat)

theorem yields_nodeFrom (start : Position) (form : ExprForm) :
    ⦃fun s => ⌜textWeight s.rest ≤ bound ∧ form.TextsWithin bound⌝⦄ nodeFrom start form
    ⦃⇓? e s => ⌜textWeight s.rest ≤ bound ∧ e.TextsWithin bound⌝⦄ := by
  mvcgen [nodeFrom]
  all_goals grind

/-! ## Operators -/

section Operators

variable {operand : Reader Expr} (hoperand : ReadsTexts operand)
include hoperand

theorem yields_leftAssoc_go (ops : List (String × BinaryOp)) (start : Position) (left : Expr)
    (fuel : Nat) :
    ⦃fun s => ⌜textWeight s.rest ≤ bound ∧ left.TextsWithin bound⌝⦄
      leftAssoc.go ops operand start left fuel
    ⦃⇓? e s => ⌜textWeight s.rest ≤ bound ∧ e.TextsWithin bound⌝⦄ := by
  have hoperand := hoperand bound
  have hnode := yields_nodeFrom bound
  induction fuel generalizing left with
  | zero => mvcgen [leftAssoc.go]
  | succ fuel ih =>
    mvcgen [leftAssoc.go, hoperand, hnode, ih]
    all_goals grind

theorem readsTexts_leftAssoc (ops : List (String × BinaryOp)) :
    ReadsTexts (leftAssoc ops operand n) := by
  intro bound
  have hgo := yields_leftAssoc_go bound hoperand ops
  have hoperand := hoperand bound
  mvcgen [leftAssoc, hoperand, hgo]
  all_goals grind

theorem yields_operandAfter? (w : String) :
    Yields bound (fun o => ∀ e ∈ o, e.TextsWithin bound) (operandAfter? w operand) := by
  have hoperand := hoperand bound
  mvcgen [operandAfter?, hoperand]
  all_goals grind

theorem readsTexts_joinedBy (w : String) (op : BoolOp) : ReadsTexts (joinedBy w op n operand) := by
  intro bound
  have hrest := yields_collect (yields_operandAfter? bound hoperand w)
  have hoperand := hoperand bound
  have hnode := yields_nodeFrom bound
  mvcgen [joinedBy, hoperand, hrest, hnode]
  all_goals grind

theorem yields_compared? :
    Yields bound (fun o => ∀ x ∈ o, x.2.TextsWithin bound) (compared? operand) := by
  have hoperand := hoperand bound
  mvcgen [compared?, hoperand]
  all_goals grind

theorem readsTexts_comparison : ReadsTexts (comparison n operand) := by
  intro bound
  have hrest := yields_collect (yields_compared? bound hoperand)
  have hoperand := hoperand bound
  have hnode := yields_nodeFrom bound
  mvcgen [comparison, hoperand, hrest, hnode]
  all_goals grind

theorem readsTexts_leftAssocs (levels : List (List (String × BinaryOp))) :
    ReadsTexts (levels.foldr (fun ops operand => leftAssoc ops operand n) operand) := by
  induction levels with
  | nil => exact hoperand
  | cons ops levels ih => exact readsTexts_leftAssoc ih ops

theorem readsTexts_signedOrPower {factor : Reader Expr} (hfactor : ReadsTexts factor) :
    ReadsTexts (signedOrPower operand factor) := by
  intro bound
  have hoperand := hoperand bound
  have hfactor := hfactor bound
  have hnode := yields_nodeFrom bound
  mvcgen [signedOrPower, hoperand, hfactor, hnode]
  all_goals grind

theorem readsTexts_negation {inversion : Reader Expr} (hinversion : ReadsTexts inversion) :
    ReadsTexts (negation n operand inversion) := by
  intro bound
  have hcomparison := readsTexts_comparison (n := n) hoperand bound
  have hinversion := hinversion bound
  have hnode := yields_nodeFrom bound
  mvcgen [negation, hcomparison, hinversion, hnode]
  all_goals grind

end Operators

/-! ## Parts of expressions that nest full expressions -/

section Nested

variable (hn : ReadsTexts n.expression)
include hn

theorem yields_walrus? : Yields bound (fun o => ∀ e ∈ o, e.TextsWithin bound) (walrus? n) := by
  have hn := hn bound
  have hnode := yields_nodeFrom bound
  mvcgen [walrus?, hn, hnode]
  all_goals grind

theorem readsTexts_namedExpr : ReadsTexts (namedExpr n) := by
  intro bound
  have hwalrus := yields_walrus? bound hn
  have hn := hn bound
  mvcgen [namedExpr, hwalrus, hn]
  all_goals grind

theorem yields_param (typed starTyped : Bool) {unpacked : Reader Expr}
    (hunpacked : ReadsTexts unpacked) :
    Yields bound (fun p => Node.TextsWithin bound (.param p))
      (param typed starTyped n unpacked) := by
  have hn := hn bound
  have hunpacked := hunpacked bound
  mvcgen [param, hn, hunpacked]
  all_goals grind

theorem yields_params_go (typed : Bool) (close : String) {unpacked : Reader Expr}
    (hunpacked : ReadsTexts unpacked) (d : ParamDraft) (fuel : Nat) :
    ⦃fun s => ⌜textWeight s.rest ≤ bound ∧ Node.TextsWithin bound (.params d.toParams)⌝⦄
      params.go typed close n unpacked d fuel
    ⦃⇓? d s => ⌜textWeight s.rest ≤ bound ∧ Node.TextsWithin bound (.params d.toParams)⌝⦄ := by
  have hparam := fun typed starTyped => yields_param bound hn typed starTyped hunpacked
  have hn := hn bound
  induction fuel generalizing d with
  | zero => mvcgen [params.go]
  | succ fuel ih =>
    mvcgen [params.go, hn, hparam, ih]
    all_goals grind [ParamDraft.toParams]

theorem yields_params (typed : Bool) (close : String) {unpacked : Reader Expr}
    (hunpacked : ReadsTexts unpacked) :
    Yields bound (fun ps => Node.TextsWithin bound (.params ps))
      (params typed close n unpacked) := by
  have hgo := yields_params_go bound hn typed close hunpacked
  mvcgen [params, hgo]
  all_goals grind [ParamDraft.toParams]

theorem yields_sliceBound? :
    Yields bound (fun o => ∀ e ∈ o, e.TextsWithin bound) (sliceBound? n) := by
  have hn := hn bound
  mvcgen [sliceBound?, hn]
  all_goals grind

theorem yields_sliceFrom (start : Position) (lower : Option Expr) :
    ⦃fun s => ⌜textWeight s.rest ≤ bound ∧ ∀ e ∈ lower, e.TextsWithin bound⌝⦄
      sliceFrom n start lower
    ⦃⇓? e s => ⌜textWeight s.rest ≤ bound ∧ e.TextsWithin bound⌝⦄ := by
  have hbound := yields_sliceBound? bound hn
  have hnode := yields_nodeFrom bound
  mvcgen [sliceFrom, hbound, hnode]
  all_goals grind

theorem readsTexts_sliceItem : ReadsTexts (sliceItem n) := by
  intro bound
  have hwalrus := yields_walrus? bound hn
  have hslice := yields_sliceFrom bound hn
  have hn := hn bound
  mvcgen [sliceItem, hwalrus, hslice, hn]
  all_goals grind

theorem readsTexts_starredExpr : ReadsTexts (starredExpr n) := by
  intro bound
  have hn := hn bound
  have hnode := yields_nodeFrom bound
  mvcgen [starredExpr, hn, hnode]
  all_goals grind

theorem readsTexts_sliceOrStarred : ReadsTexts (sliceOrStarred n) := by
  intro bound
  have hitem := readsTexts_sliceItem hn bound
  have hstarred := readsTexts_starredExpr hn bound
  mvcgen [sliceOrStarred, hitem, hstarred]
  all_goals grind

theorem readsTexts_slices : ReadsTexts (slices n) := by
  intro bound
  have hitems := yields_commaList (readsTexts_sliceOrStarred hn bound)
  have hnode := yields_nodeFrom bound
  mvcgen [slices, hitems, hnode]
  all_goals grind

theorem yields_argument (phase : ArgPhase) (d : ArgDraft) :
    ⦃fun s => ⌜textWeight s.rest ≤ bound ∧ d.TextsWithin bound⌝⦄ argument n phase d
    ⦃⇓? r s => ⌜textWeight s.rest ≤ bound ∧ r.2.TextsWithin bound⌝⦄ := by
  have hstarred := readsTexts_starredExpr hn bound
  have hnamed := readsTexts_namedExpr hn bound
  have hn := hn bound
  mvcgen [argument, hn, hstarred, hnamed]
  all_goals grind

theorem yields_arguments (phase : ArgPhase) (d : ArgDraft) (fuel : Nat) :
    ⦃fun s => ⌜textWeight s.rest ≤ bound ∧ d.TextsWithin bound⌝⦄ arguments n phase d fuel
    ⦃⇓? d s => ⌜textWeight s.rest ≤ bound ∧ d.TextsWithin bound⌝⦄ := by
  have hargument := yields_argument bound hn
  induction fuel generalizing phase d with
  | zero => mvcgen [arguments]
  | succ fuel ih =>
    mvcgen [arguments, hargument, ih]
    all_goals grind

end Nested

/-! ## Primaries -/

section Primary

variable {bitwiseOr disjunction primary : Reader Expr} (hn : ReadsTexts n.expression)
  (hbitwiseOr : ReadsTexts bitwiseOr) (hdisjunction : ReadsTexts disjunction)
  (hprimary : ReadsTexts primary)

include hn hbitwiseOr in
theorem readsTexts_starNamedExpr : ReadsTexts (starNamedExpr n bitwiseOr) := by
  intro bound
  have hnamed := readsTexts_namedExpr hn bound
  have hbitwiseOr := hbitwiseOr bound
  have hnode := yields_nodeFrom bound
  mvcgen [starNamedExpr, hnamed, hbitwiseOr, hnode]
  all_goals grind

include hn hbitwiseOr in
theorem readsTexts_starExpr : ReadsTexts (starExpr n bitwiseOr) := by
  intro bound
  have hn := hn bound
  have hbitwiseOr := hbitwiseOr bound
  have hnode := yields_nodeFrom bound
  mvcgen [starExpr, hn, hbitwiseOr, hnode]
  all_goals grind

include hn hbitwiseOr in
theorem readsTexts_starExprs : ReadsTexts (starExprs n bitwiseOr) := by
  intro bound
  have hitems := yields_commaList (readsTexts_starExpr hn hbitwiseOr bound)
  have hnode := yields_nodeFrom bound
  mvcgen [starExprs, hitems, hnode]
  all_goals grind

include hn hbitwiseOr in
theorem readsTexts_yieldExpr : ReadsTexts (yieldExpr n bitwiseOr) := by
  intro bound
  have hexprs := readsTexts_starExprs hn hbitwiseOr bound
  have hn := hn bound
  have hnode := yields_nodeFrom bound
  mvcgen [yieldExpr, hexprs, hn, hnode]
  all_goals grind

include hprimary in
theorem readsTexts_forTarget : ReadsTexts (forTarget n primary) := by
  intro bound
  have hprimary := hprimary bound
  have hnode := yields_nodeFrom bound
  mvcgen [forTarget, hprimary, hnode]
  all_goals grind

include hprimary in
theorem readsTexts_forTargets : ReadsTexts (forTargets n primary) := by
  intro bound
  have hitems := yields_commaList (readsTexts_forTarget (n := n) hprimary bound)
  have hnode := yields_nodeFrom bound
  mvcgen [forTargets, hitems, hnode]
  all_goals grind

include hdisjunction hprimary in
theorem yields_clause? :
    Yields bound (fun o => ∀ c ∈ o, Node.TextsWithin bound (.clause c))
      (clause? n disjunction primary) := by
  have htargets := readsTexts_forTargets (n := n) hprimary bound
  have hfilters := yields_collect (yields_operandAfter? bound hdisjunction "if")
  have hdisjunction := hdisjunction bound
  mvcgen [clause?, htargets, hfilters, hdisjunction]
  all_goals grind

include hdisjunction hprimary in
theorem yields_clauses :
    Yields bound (fun cs => ∀ c ∈ cs, Node.TextsWithin bound (.clause c))
      (clauses n disjunction primary) := by
  have hclauses := yields_collect (yields_clause? (n := n) bound hdisjunction hprimary)
  mvcgen [clauses, hclauses]
  all_goals grind

include hn hbitwiseOr in
theorem yields_dictEntry : Yields bound (EntryWithin bound) (dictEntry n bitwiseOr) := by
  have hn := hn bound
  have hbitwiseOr := hbitwiseOr bound
  mvcgen [dictEntry, hn, hbitwiseOr]
  all_goals grind

include hn hbitwiseOr in
theorem yields_dictRest (start : Position) (first : Option Expr × Expr) :
    ⦃fun s => ⌜textWeight s.rest ≤ bound ∧ EntryWithin bound first⌝⦄
      dictRest n bitwiseOr start first
    ⦃⇓? e s => ⌜textWeight s.rest ≤ bound ∧ e.TextsWithin bound⌝⦄ := by
  have hrest := yields_commaList (yields_dictEntry bound hn hbitwiseOr)
  have hnode := yields_nodeFrom bound
  mvcgen [dictRest, hrest, hnode]
  all_goals grind

include hn hbitwiseOr in
theorem embedsWithin_embedded : Quoted.EmbedsWithin bound (embedded n bitwiseOr) := by
  intro pos cs e hlength h
  unfold embedded at h
  split at h
  · cases h
  · split at h
    · cases h
    · rename_i tokens hscan
      obtain ⟨⟨e, s⟩, hrun, rfl⟩ := Option.map_eq_some_iff.1 h
      have hweight := textWeight_scanFrom_le hscan
      have hwithin := triple_iff.1 (readsTexts_starExprs hn hbitwiseOr (cs.length + 3)) _ _ _
        (by simpa using hweight) hrun
      exact hwithin.2.mono (by omega)

theorem weight_textPiece? {s s' : ReadState} {o : Option (TextPiece × Span)}
    (h : textPiece? s = some (o, s')) :
    Quoted.itemsWeight o.toList + textWeight s'.rest = textWeight s.rest := by
  obtain ⟨rest, stop⟩ := s
  cases rest with
  | nil => cases h; rfl
  | cons l rest =>
    obtain ⟨token, span⟩ := l
    cases token <;> cases h <;> simp [Quoted.itemsWeight, textWeight, Token.weight]

theorem weight_collect_textPiece? {s s' : ReadState} {items : List (TextPiece × Span)} {fuel : Nat}
    (h : collect textPiece? fuel s = some (items, s')) :
    Quoted.itemsWeight items + textWeight s'.rest = textWeight s.rest := by
  induction fuel generalizing s items with
  | zero => cases h
  | succ fuel ih =>
    obtain ⟨⟨o, mid⟩, hfirst, h⟩ := Option.bind_eq_some_iff.1 h
    have hweight := weight_textPiece? hfirst
    cases o with
    | none => cases h; exact hweight
    | some item =>
      obtain ⟨⟨rest, last⟩, hrest, h⟩ := Option.bind_eq_some_iff.1 h
      cases h
      have hrest := ih hrest
      simp only [Option.toList_some, Quoted.itemsWeight] at hweight ⊢
      omega

theorem yields_collect_textPiece? (fuel : Nat) :
    Yields bound (fun items => Quoted.itemsWeight items ≤ bound) (collect textPiece? fuel) := by
  refine triple_iff.2 fun s items s' hs h => ?_
  have hweight := weight_collect_textPiece? h
  omega

include hn hbitwiseOr in
theorem readsTexts_quoted : ReadsTexts (quoted n bitwiseOr) := by
  intro bound
  have hitems := yields_collect_textPiece? bound
  have hconcatenate := @Quoted.concatenate_within _ _ bound (embedded n bitwiseOr)
  have hembedded := embedsWithin_embedded bound hn hbitwiseOr
  mvcgen [quoted, hitems]
  all_goals grind

include hn hbitwiseOr hdisjunction hprimary

theorem readsTexts_parenthesized :
    ReadsTexts (parenthesized n bitwiseOr disjunction primary) := by
  intro bound
  have hyield := readsTexts_yieldExpr hn hbitwiseOr bound
  have hfirst := readsTexts_starNamedExpr hn hbitwiseOr bound
  have hrest := yields_commaList hfirst
  have hclauses := yields_clauses (n := n) bound hdisjunction hprimary
  have hnode := yields_nodeFrom bound
  mvcgen [parenthesized, hyield, hfirst, hrest, hclauses, hnode]
  all_goals grind

theorem readsTexts_bracketed : ReadsTexts (bracketed n bitwiseOr disjunction primary) := by
  intro bound
  have hfirst := readsTexts_starNamedExpr hn hbitwiseOr bound
  have hrest := yields_commaList hfirst
  have hclauses := yields_clauses (n := n) bound hdisjunction hprimary
  have hnode := yields_nodeFrom bound
  mvcgen [bracketed, hfirst, hrest, hclauses, hnode]
  all_goals grind

theorem readsTexts_braced : ReadsTexts (braced n bitwiseOr disjunction primary) := by
  intro bound
  have hwalrus := yields_walrus? bound hn
  have hstarred := readsTexts_starExpr hn hbitwiseOr bound
  have hfirst := readsTexts_starNamedExpr hn hbitwiseOr bound
  have hrest := yields_commaList hfirst
  have hentry := yields_dictEntry bound hn hbitwiseOr
  have hentries := yields_dictRest bound hn hbitwiseOr
  have hclauses := yields_clauses (n := n) bound hdisjunction hprimary
  have hnode := yields_nodeFrom bound
  have hn := hn bound
  mvcgen [braced, hn, hwalrus, hstarred, hrest, hentry, hentries, hclauses, hnode]
  all_goals grind

theorem readsTexts_atom : ReadsTexts (atom n bitwiseOr disjunction primary) := by
  intro bound
  have hquoted := readsTexts_quoted hn hbitwiseOr bound
  have hparen := readsTexts_parenthesized hn hbitwiseOr hdisjunction hprimary bound
  have hbracketed := readsTexts_bracketed hn hbitwiseOr hdisjunction hprimary bound
  have hbraced := readsTexts_braced hn hbitwiseOr hdisjunction hprimary bound
  mvcgen [atom, hquoted, hparen, hbracketed, hbraced]
  all_goals grind [textWithin_toConstant]

omit hbitwiseOr in
theorem yields_callArgs :
    Yields bound (ArgDraft.TextsWithin bound) (callArgs n disjunction primary) := by
  have hnamed := readsTexts_namedExpr hn bound
  have hclauses := yields_clauses (n := n) bound hdisjunction hprimary
  have harguments := yields_arguments bound hn
  mvcgen [callArgs, hnamed, hclauses, harguments]
  all_goals grind

omit hbitwiseOr in
theorem yields_trailers (start : Position) (fuel : Nat) (e : Expr) :
    ⦃fun s => ⌜textWeight s.rest ≤ bound ∧ e.TextsWithin bound⌝⦄
      trailers n disjunction primary start fuel e
    ⦃⇓? e s => ⌜textWeight s.rest ≤ bound ∧ e.TextsWithin bound⌝⦄ := by
  have hcall := yields_callArgs bound hn hdisjunction hprimary
  have hslices := readsTexts_slices hn bound
  have hnode := yields_nodeFrom bound
  induction fuel generalizing e with
  | zero => mvcgen [trailers]
  | succ fuel ih =>
    mvcgen [trailers, hcall, hslices, hnode, ih]
    all_goals grind

theorem readsTexts_atomWithTrailers :
    ReadsTexts (atomWithTrailers n bitwiseOr disjunction primary) := by
  intro bound
  have hatom := readsTexts_atom hn hbitwiseOr hdisjunction hprimary bound
  have htrailers := yields_trailers bound hn hdisjunction hprimary
  mvcgen [atomWithTrailers, hatom, htrailers]
  all_goals grind

end Primary

/-! ## Full expressions -/

theorem readsTexts_level (hn : ReadsTexts n.expression) (fuel : Nat) (l : Level) :
    ReadsTexts (level n fuel l) := by
  induction fuel generalizing l with
  | zero =>
    intro bound
    mvcgen [level]
  | succ fuel ih =>
    cases l with
    | primary =>
      exact readsTexts_atomWithTrailers hn (ih .bitwiseOr) (ih .disjunction) (ih .primary)
    | factor => exact readsTexts_signedOrPower (ih .primary) (ih .factor)
    | bitwiseOr => exact readsTexts_leftAssocs (ih .factor) binaryLevels
    | inversion => exact readsTexts_negation (ih .bitwiseOr) (ih .inversion)
    | disjunction =>
      exact readsTexts_joinedBy (readsTexts_joinedBy (ih .inversion) "and" .and) "or" .or

theorem readsTexts_failure : ReadsTexts failure :=
  fun _ => triple_iff.2 fun _ _ _ _ h => nomatch h

theorem readsTexts_expressionWith (hn : ReadsTexts n.expression) :
    ReadsTexts (expressionWith n) := by
  intro bound
  have hparams := yields_params bound hn false ":" readsTexts_failure
  have hlevel := fun fuel => readsTexts_level hn fuel .disjunction bound
  have hnode := yields_nodeFrom bound
  have hn := hn bound
  mvcgen [expressionWith, hparams, hlevel, hn, hnode]
  all_goals grind

theorem readsTexts_expression (fuel : Nat) : ReadsTexts (expression fuel) := by
  induction fuel with
  | zero =>
    intro bound
    mvcgen [expression]
  | succ fuel ih => exact readsTexts_expressionWith (n := ⟨fuel, expression fuel⟩) ih

@[spec] theorem keeps_emptyLine? {bound : Nat} : Keeps bound emptyLine? := by
  mvcgen [emptyLine?]
  all_goals omega

theorem readsTexts_wholeExpr (hn : ReadsTexts n.expression) : ReadsTexts (wholeExpr n) := by
  intro bound
  have hitems := yields_commaList (hn bound)
  have hlines := keeps_collect (@keeps_emptyLine? bound)
  have hnode := yields_nodeFrom bound
  mvcgen [wholeExpr, hitems, hlines, hnode]
  all_goals grind

end Grammar

/-- The text constants of a text that is read as an expression, with their quotes, are no longer
than the text. -/
theorem textsWithin_of_readExpr {text : String} {e : Expr} (h : readExpr text = .ok e) :
    e.TextsWithin text.length := by
  unfold readExpr readWith at h
  split at h
  · cases h
  · split at h
    · cases h
    · rename_i tokens hscan
      have hweight : textWeight tokens ≤ text.length :=
        calc textWeight tokens
            ≤ (unifyLineEnds text.toList).length := textWeight_scanFrom_le hscan
          _ ≤ text.toList.length := length_unifyLineEnds_le _
          _ = text.length := String.length_toList
      split at h
      · rename_i s hrun
        cases h
        have hexpression := Grammar.readsTexts_expression ((unifyLineEnds text.toList).length + 16)
        have hwithin := Grammar.readsTexts_wholeExpr
          (n := Grammar.nesting ((unifyLineEnds text.toList).length + 16)) hexpression text.length
        exact (Reader.triple_iff.1 hwithin _ _ _ hweight hrun).2
      · cases h

theorem Text.length_strip_le (s : String) : (Text.strip s).length ≤ s.length := by
  have htail := (List.dropWhile_suffix Text.isBlank (l := s.toList)).length_le
  have hhead := (List.dropWhile_suffix Text.isBlank
    (l := (s.toList.dropWhile Text.isBlank).reverse)).length_le
  rw [List.length_reverse] at hhead
  rw [Text.strip, String.length_ofList, List.length_reverse, ← String.length_toList]
  exact Nat.le_trans hhead htail

/-- What a quoted annotation quotes in turn is shorter than it is. -/
theorem textsWithin_of_readQuoted {s : String} {e : Expr} (h : readQuoted s = .ok (some e)) :
    e.TextsWithin s.length := by
  unfold readQuoted at h
  split at h
  · rename_i e' hread
    cases h
    exact (textsWithin_of_readExpr hread).mono (Text.length_strip_le s)
  · cases h
  · cases h

end RouteLens
