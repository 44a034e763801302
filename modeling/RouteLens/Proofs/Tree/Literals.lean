import Mathlib.Data.List.Forall2
import Mathlib.Logic.Relation
import RouteLens.Proofs.Value.Operations

/-!
# What literal expressions come to

The literal grammar by its rules: an expression has a value (`Expr.HasValue`) if it is a constant, a
list, tuple or set of expressions that have one, a dictionary of them whose keys can be keys, or a
sign or an operation that applies to the values of its operands.

The evaluation finds the value and no other.  It finds none exactly if one of the expressions whose
values are needed fails by itself (`Expr.Fails`): its form is outside the grammar, or its operands
have values but its last step does not apply to them.  What a value is made of, at any depth, is
again the value of an expression that was needed.
-/

namespace RouteLens

/-! ## The grammar -/

/-- The forms that show one element after the other. -/
inductive ExprForm.Displays : ExprForm → List Expr → Prop
  | list (es : List Expr) : Displays (.list es) es
  | tuple (es : List Expr) : Displays (.tuple es) es
  | set (es : List Expr) : Displays (.set es) es

/-- The forms of the literal grammar, whatever their parts are.  A dictionary has a key for each
value: no mapping is unpacked into it. -/
inductive ExprForm.InGrammar : ExprForm → Prop
  | constant (c : Constant) : InGrammar (.constant c)
  | display {form : ExprForm} {es : List Expr} (h : form.Displays es) : InGrammar form
  | dict {keys : List (Option Expr)} {values : List Expr}
      (h : ∀ p ∈ keys.zip values, p.1.isSome = true) : InGrammar (.dict keys values)
  | sign {op : UnaryOp} (hop : op ∈ [.plus, .minus]) (e : Expr) : InGrammar (.unary op e)
  | operation {op : BinaryOp} (hop : op ∈ [.add, .sub, .mul, .div]) (l r : Expr) :
      InGrammar (.binary l op r)

/-- A sign before an integer that is no truth value, or before a floating-point number. -/
inductive Value.Signed : UnaryOp → Value → Value → Prop
  | plusInt (n : Int) : Signed .plus (.int n) (.int n)
  | minusInt (n : Int) : Signed .minus (.int n) (.int (-n))
  | plusFloat (x : Binary64) : Signed .plus (.float x) (.float x)
  | minusFloat (x : Binary64) : Signed .minus (.float x) (.float x.neg)

namespace Expr

/-- An expression of the literal grammar has a value. -/
inductive HasValue : Expr → Value → Prop
  | constant {s : Span} (c : Constant) : HasValue (.node s (.constant c)) c.toValue
  | display {s : Span} {form : ExprForm} {es : List Expr} {vs : List Value}
      (hform : form.Displays es) (h : List.Forall₂ HasValue es vs) :
      HasValue (.node s form) (.list vs)
  | dict {s : Span} {keys : List (Option Expr)} {values : List Expr} {pairs : List (Expr × Expr)}
      {given entries : List (Value × Value)}
      (hpairs : keys.zip values = pairs.map fun p => (some p.1, p.2))
      (hkeys : List.Forall₂ HasValue (pairs.map Prod.fst) (given.map Prod.fst))
      (hvalues : List.Forall₂ HasValue (pairs.map Prod.snd) (given.map Prod.snd))
      (hkey : ∀ e ∈ given, e.1.isKey = true) (h : Collects given entries) :
      HasValue (.node s (.dict keys values)) (.dict entries)
  | sign {s : Span} {op : UnaryOp} {e : Expr} {v w : Value} (hv : HasValue e v)
      (h : Value.Signed op v w) : HasValue (.node s (.unary op e)) w
  | operation {s : Span} {op : BinaryOp} {l r : Expr} {a b v : Value} (hl : HasValue l a)
      (hr : HasValue r b) (h : Computes op a b v) : HasValue (.node s (.binary l op r)) v

/-- The value of an expression needs that of another one, its part. -/
inductive Needs : Expr → Expr → Prop
  | element {s : Span} {form : ExprForm} {es : List Expr} {d : Expr} (hform : form.Displays es)
      (h : d ∈ es) : Needs (.node s form) d
  | key {s : Span} {keys : List (Option Expr)} {values : List Expr} {d e : Expr}
      (h : (some d, e) ∈ keys.zip values) : Needs (.node s (.dict keys values)) d
  | value {s : Span} {keys : List (Option Expr)} {values : List Expr} {k : Option Expr} {d : Expr}
      (h : (k, d) ∈ keys.zip values) : Needs (.node s (.dict keys values)) d
  | operand {s : Span} {op : UnaryOp} {d : Expr} (hop : op ∈ [.plus, .minus]) :
      Needs (.node s (.unary op d)) d
  | left {s : Span} {op : BinaryOp} {d r : Expr} (hop : op ∈ [.add, .sub, .mul, .div]) :
      Needs (.node s (.binary d op r)) d
  | right {s : Span} {op : BinaryOp} {l d : Expr} (hop : op ∈ [.add, .sub, .mul, .div]) :
      Needs (.node s (.binary l op d)) d

/-- An expression is needed for another one: it is the same, or a part of a needed one. -/
def Needed : Expr → Expr → Prop :=
  Relation.ReflTransGen Needs

/-- An expression fails by itself: it is outside the grammar, or its last step does not apply to the
values it has got. -/
inductive Fails : Expr → Prop
  | outside {s : Span} {form : ExprForm} (h : ¬ form.InGrammar) : Fails (.node s form)
  | sign {s : Span} {op : UnaryOp} {e : Expr} {v : Value} (hv : HasValue e v)
      (h : ∀ w, ¬ Value.Signed op v w) : Fails (.node s (.unary op e))
  | operation {s : Span} {op : BinaryOp} {l r : Expr} {a b : Value} (hl : HasValue l a)
      (hr : HasValue r b) (h : ∀ v, ¬ Computes op a b v) : Fails (.node s (.binary l op r))
  | key {s : Span} {keys : List (Option Expr)} {values : List Expr} {d e : Expr} {k : Value}
      (hd : (some d, e) ∈ keys.zip values) (hk : HasValue d k) (h : k.isKey = false) :
      Fails (.node s (.dict keys values))

/-! ## The evaluation of each form -/

variable {e d l r : Expr} {es : List Expr} {vs : List Value} {form : ExprForm} {s : Span}
  {v w : Value}

theorem literal?_display (h : form.Displays es) :
    (Expr.node s form).literal? = (literals? es).map .list := by
  cases h <;> rfl

theorem literals?_eq_some_iff :
    literals? es = some vs ↔ List.Forall₂ (fun e v => e.literal? = some v) es vs := by
  induction es generalizing vs with
  | nil => simp [literals?, eq_comm]
  | cons e es ih =>
    cases vs with
    | nil => cases hv : e.literal? <;> cases hvs : literals? es <;> simp [literals?, hv, hvs]
    | cons v vs =>
      rw [literals?, List.forall₂_cons, ← ih]
      cases e.literal? <;> cases literals? es <;> simp

theorem literals?_eq_none_iff : literals? es = none ↔ ∃ e ∈ es, e.literal? = none := by
  induction es with
  | nil => simp [literals?]
  | cons e es ih =>
    rw [literals?, List.exists_mem_cons_iff, ← ih]
    cases e.literal? <;> cases literals? es <;> simp

theorem exists_mem_of_literals? (h : literals? es = some vs) (hv : v ∈ vs) :
    ∃ e ∈ es, e.literal? = some v := by
  have hall := literals?_eq_some_iff.1 h
  clear h
  induction hall with
  | nil => cases hv
  | cons he hes ih =>
    rcases List.mem_cons.1 hv with rfl | hv
    · exact ⟨_, List.mem_cons_self, he⟩
    · obtain ⟨e, hmem, hvalue⟩ := ih hv
      exact ⟨e, List.mem_cons_of_mem _ hmem, hvalue⟩

theorem eachLiteral_eq (es : List Expr) : eachLiteral es = es.map Expr.literal? := by
  induction es with
  | nil => rfl
  | cons e es ih => rw [eachLiteral, ih, List.map_cons]

theorem keyLiterals_eq (ks : List (Option Expr)) :
    keyLiterals ks = ks.map (·.bind Expr.literal?) := by
  induction ks with
  | nil => rfl
  | cons k ks ih => cases k <;> rw [keyLiterals, ih] <;> rfl

/-- A dictionary is filled with the values of its pairs. -/
theorem literal?_pairs (keys : List (Option Expr)) (values : List Expr) :
    (Expr.node s (.dict keys values)).literal? = (ExprForm.literal?.entries []
      ((keys.zip values).map fun p => (p.1.bind Expr.literal?, p.2.literal?))).map .dict := by
  rw [literal?, ExprForm.literal?, eachLiteral_eq, keyLiterals_eq, List.zip_map]
  rfl

theorem exists_pairs {pairs : List (Option Expr × Expr)} (h : ∀ p ∈ pairs, p.1.isSome = true) :
    ∃ es : List (Expr × Expr), pairs = es.map fun p => (some p.1, p.2) := by
  induction pairs with
  | nil => exact ⟨[], rfl⟩
  | cons p pairs ih =>
    obtain ⟨es, rfl⟩ := ih fun q hq => h q (List.mem_cons_of_mem p hq)
    obtain ⟨k, hk⟩ := Option.isSome_iff_exists.1 (h p List.mem_cons_self)
    exact ⟨(k, p.2) :: es, by rw [List.map_cons, ← hk]⟩

/-- What is outside the grammar of literals has no value. -/
theorem literal?_of_not_inGrammar (h : ¬ form.InGrammar) : (Expr.node s form).literal? = none := by
  cases form with
  | constant c => exact (h (.constant c)).elim
  | list es => exact (h (.display (.list es))).elim
  | tuple es => exact (h (.display (.tuple es))).elim
  | set es => exact (h (.display (.set es))).elim
  | dict keys values =>
    refine Option.eq_none_iff_forall_ne_some.2 fun v hv => h (.dict fun p hp => ?_)
    rw [literal?_pairs] at hv
    obtain ⟨es, hes, -⟩ := Option.map_eq_some_iff.1 hv
    obtain ⟨given, hgiven⟩ := exists_entries hes
    -- the values of the pairs are complete, so their keys are there
    have hmem := List.mem_map_of_mem (f := fun p => (p.1.bind literal?, p.2.literal?)) hp
    rw [hgiven] at hmem
    obtain ⟨x, -, hx⟩ := List.mem_map.1 hmem
    cases hk : p.1 with
    | some k => rfl
    | none => simp [hk] at hx
  | unary op e =>
    cases op with
    | plus | minus => exact (h (.sign (by simp) e)).elim
    | invert | not =>
      simp only [literal?, ExprForm.literal?]
      cases e.literal? <;> rfl
  | binary l op r =>
    have hop : op.onValues? = none := by
      cases op with
      | add | sub | mul | div => exact (h (.operation (by simp) l r)).elim
      | _ => rfl
    simp [literal?, ExprForm.literal?, hop]
  | _ => rfl

theorem inGrammar_of_literal? (h : (Expr.node s form).literal? = some v) : form.InGrammar := by
  by_contra hform
  cases (literal?_of_not_inGrammar hform).symm.trans h

theorem mem_zip_of_pairs {keys : List (Option Expr)} {values : List Expr}
    {pairs : List (Expr × Expr)} (hpairs : keys.zip values = pairs.map fun p => (some p.1, p.2))
    {p : Expr × Expr} (hp : p ∈ pairs) : (some p.1, p.2) ∈ keys.zip values := by
  rw [hpairs]
  exact List.mem_map_of_mem hp

/-- The values of some pairs. -/
def Gives (pairs : List (Expr × Expr)) (given : List (Value × Value)) : Prop :=
  List.Forall₂ (fun p x => p.1.literal? = some x.1 ∧ p.2.literal? = some x.2) pairs given

/-- The value of a dictionary collects its entries, later ones replacing earlier ones. -/
theorem literal?_dict {keys : List (Option Expr)} {values : List Expr}
    {pairs : List (Expr × Expr)} (hpairs : keys.zip values = pairs.map fun p => (some p.1, p.2)) :
    (Expr.node s (.dict keys values)).literal? = some v ↔
      ∃ given entries, Gives pairs given ∧
        ((∀ e ∈ given, e.1.isKey = true) ∧ Collects given entries) ∧ v = .dict entries := by
  have hgives (given : List (Value × Value)) :
      (pairs.map fun p => (p.1.literal?, p.2.literal?)) =
        given.map (fun e => (some e.1, some e.2)) ↔ Gives pairs given := by
    rw [Gives, ← List.forall₂_eq_eq_eq, List.forall₂_map_left_iff, List.forall₂_map_right_iff]
    simp only [Prod.mk.injEq]
  rw [literal?_pairs, hpairs, List.map_map, Option.map_eq_some_iff]
  simp only [entries_eq_some_iff]
  constructor
  · rintro ⟨entries, ⟨given, hgiven, hkeys, hcollects⟩, rfl⟩
    exact ⟨given, entries, (hgives given).1 hgiven, ⟨hkeys, hcollects⟩, rfl⟩
  · rintro ⟨given, entries, hgiven, ⟨hkeys, hcollects⟩, rfl⟩
    exact ⟨entries, ⟨given, (hgives given).2 hgiven, hkeys, hcollects⟩, rfl⟩

theorem onValue?_eq_some_iff {op : UnaryOp} : op.onValue? v = some w ↔ Value.Signed op v w := by
  constructor
  · intro h
    unfold UnaryOp.onValue? at h
    split at h <;> cases h <;> constructor
  · rintro (_ | _ | _ | _) <;> rfl

theorem literal?_unary {op : UnaryOp} :
    (Expr.node s (.unary op e)).literal? = some w ↔
      ∃ v, e.literal? = some v ∧ Value.Signed op v w := by
  simp only [literal?, ExprForm.literal?, ← onValue?_eq_some_iff]
  cases e.literal? <;> simp

theorem mem_of_signed {op : UnaryOp} (h : Value.Signed op v w) : op ∈ [.plus, .minus] := by
  cases h <;> simp

theorem exists_onValues? {op : BinaryOp} (hop : op ∈ [.add, .sub, .mul, .div]) :
    ∃ f, op.onValues? = some f := by
  cases op with
  | add | sub | mul | div => exact ⟨_, rfl⟩
  | _ => simp at hop

theorem mem_of_onValues? {op : BinaryOp} {f : Value → Value → Except Fault Value}
    (h : op.onValues? = some f) : op ∈ [.add, .sub, .mul, .div] := by
  cases op <;> cases h <;> simp

theorem mem_of_computes {op : BinaryOp} {a b : Value} (h : Computes op a b v) :
    op ∈ [.add, .sub, .mul, .div] := by
  cases h <;> simp

/-- The value of an operation is computed from those of its operands. -/
theorem literal?_binary {op : BinaryOp} :
    (Expr.node s (.binary l op r)).literal? = some v ↔
      ∃ a b, l.literal? = some a ∧ r.literal? = some b ∧ Computes op a b v := by
  simp only [literal?, ExprForm.literal?]
  cases hop : op.onValues? with
  | none =>
    simp only [reduceCtorEq, false_iff]
    rintro ⟨a, b, -, -, h⟩
    obtain ⟨f, hf⟩ := exists_onValues? (mem_of_computes h)
    cases hop.symm.trans hf
  | some f =>
    cases l.literal? with
    | none => simp
    | some a =>
      cases r.literal? with
      | none => simp
      | some b => simp [toOption_eq_some_iff, BinaryOp.apply_eq_ok_iff hop]

/-! ## The value and no other -/

theorem Needs.sizeOf_lt (h : Needs e d) : sizeOf d < sizeOf e := by
  cases h with
  | element hform hd =>
    have := List.sizeOf_lt_of_mem hd
    cases hform <;> simp <;> omega
  | key hd =>
    have := List.sizeOf_lt_of_mem (List.of_mem_zip hd).1
    simp at this ⊢
    omega
  | value hd =>
    have := List.sizeOf_lt_of_mem (List.of_mem_zip hd).2
    simp
    omega
  | operand => simp; omega
  | left => simp; omega
  | right => simp; omega

theorem wellFounded_needs : WellFounded fun d e => Needs e d :=
  Subrelation.wf Needs.sizeOf_lt (measure sizeOf).wf

theorem forall₂_congr_of_mem {α β : Type} {R S : α → β → Prop} {as : List α} {bs : List β}
    (h : ∀ a ∈ as, ∀ {b}, R a b ↔ S a b) : List.Forall₂ R as bs ↔ List.Forall₂ S as bs := by
  rw [List.forall₂_iff_zip, List.forall₂_iff_zip]
  refine and_congr_right fun _ => ⟨fun hall a b hab => ?_, fun hall a b hab => ?_⟩
  · exact (h a (List.of_mem_zip hab).1).1 (hall hab)
  · exact (h a (List.of_mem_zip hab).1).2 (hall hab)

theorem forall₂_and_iff {α β : Type} {R S : α → β → Prop} {as : List α} {bs : List β} :
    List.Forall₂ (fun a b => R a b ∧ S a b) as bs ↔
      List.Forall₂ R as bs ∧ List.Forall₂ S as bs := by
  refine ⟨fun h => ⟨h.imp fun _ _ h => h.1, h.imp fun _ _ h => h.2⟩, fun h => ?_⟩
  obtain ⟨hR, hS⟩ := h
  induction hR with
  | nil => exact .nil
  | cons hr _ ih =>
    cases hS with
    | cons hs hS => exact .cons ⟨hr, hs⟩ (ih hS)

theorem literals?_eq_some_iff_of_mem
    (h : ∀ e ∈ es, ∀ {v}, e.literal? = some v ↔ HasValue e v) :
    literals? es = some vs ↔ List.Forall₂ HasValue es vs :=
  literals?_eq_some_iff.trans (forall₂_congr_of_mem h)

/-- The pairs of a dictionary have the values that their keys and values have. -/
theorem gives_iff_of_mem {pairs : List (Expr × Expr)} {given : List (Value × Value)}
    (hkey : ∀ p ∈ pairs, ∀ {v}, p.1.literal? = some v ↔ HasValue p.1 v)
    (hvalue : ∀ p ∈ pairs, ∀ {v}, p.2.literal? = some v ↔ HasValue p.2 v) :
    Gives pairs given ↔ List.Forall₂ HasValue (pairs.map Prod.fst) (given.map Prod.fst) ∧
      List.Forall₂ HasValue (pairs.map Prod.snd) (given.map Prod.snd) := by
  rw [Gives, forall₂_congr_of_mem fun p hp => and_congr (hkey p hp) (hvalue p hp)]
  rw [List.forall₂_map_left_iff, List.forall₂_map_right_iff, List.forall₂_map_left_iff,
    List.forall₂_map_right_iff]
  exact forall₂_and_iff

/-- The evaluator gives a value exactly if the expression has it by the grammar of literals. -/
theorem literal?_eq_some_iff : e.literal? = some v ↔ HasValue e v := by
  induction e using wellFounded_needs.induction generalizing v with
  | _ e ih =>
    obtain ⟨s, form⟩ := e
    constructor
    · intro h
      cases inGrammar_of_literal? h with
      | constant c =>
        cases h
        exact .constant c
      | display hform =>
        rw [literal?_display hform] at h
        obtain ⟨vs, hvs, rfl⟩ := Option.map_eq_some_iff.1 h
        exact .display hform
          ((literals?_eq_some_iff_of_mem fun e he => ih e (.element hform he)).1 hvs)
      | dict hsome =>
        obtain ⟨pairs, hpairs⟩ := exists_pairs hsome
        obtain ⟨given, entries, hgives, ⟨hkey, hcollects⟩, rfl⟩ := (literal?_dict hpairs).1 h
        obtain ⟨hks, hvs⟩ := (gives_iff_of_mem
          (fun p hp => ih p.1 (.key (mem_zip_of_pairs hpairs hp)))
          fun p hp => ih p.2 (.value (mem_zip_of_pairs hpairs hp))).1 hgives
        exact .dict hpairs hks hvs hkey hcollects
      | sign hop e =>
        obtain ⟨v, hv, hsign⟩ := literal?_unary.1 h
        exact .sign ((ih e (.operand hop)).1 hv) hsign
      | operation hop l r =>
        obtain ⟨a, b, ha, hb, hcomputes⟩ := literal?_binary.1 h
        exact .operation ((ih l (.left hop)).1 ha) ((ih r (.right hop)).1 hb) hcomputes
    · intro h
      cases h with
      | constant c => rfl
      | display hform hvs =>
        rw [literal?_display hform,
          (literals?_eq_some_iff_of_mem fun e he => ih e (.element hform he)).2 hvs]
        rfl
      | dict hpairs hks hvs hkey hcollects =>
        refine (literal?_dict hpairs).2 ⟨_, _, ?_, ⟨hkey, hcollects⟩, rfl⟩
        exact (gives_iff_of_mem
          (fun p hp => ih p.1 (.key (mem_zip_of_pairs hpairs hp)))
          fun p hp => ih p.2 (.value (mem_zip_of_pairs hpairs hp))).2 ⟨hks, hvs⟩
      | sign hv hsign =>
        have hop := mem_of_signed hsign
        exact literal?_unary.2 ⟨_, (ih _ (.operand hop)).2 hv, hsign⟩
      | operation hl hr hcomputes =>
        have hop := mem_of_computes hcomputes
        exact literal?_binary.2
          ⟨_, _, (ih _ (.left hop)).2 hl, (ih _ (.right hop)).2 hr, hcomputes⟩

/-! ## Why there is none -/

theorem exists_rel_of_mem {α β : Type} {R : α → β → Prop} {as : List α} {bs : List β}
    (h : List.Forall₂ R as bs) {a : α} (ha : a ∈ as) : ∃ b ∈ bs, R a b := by
  induction h with
  | nil => cases ha
  | cons hab _ ih =>
    rcases List.mem_cons.1 ha with rfl | ha
    · exact ⟨_, List.mem_cons_self, hab⟩
    · obtain ⟨b, hb, hrel⟩ := ih ha
      exact ⟨b, List.mem_cons_of_mem _ hb, hrel⟩

/-- All pairs of a dictionary that has a value have values, and keys that can be keys. -/
theorem exists_given_of_literal? {keys : List (Option Expr)} {values : List Expr}
    (h : (Expr.node s (.dict keys values)).literal? = some v) {k : Option Expr} {e : Expr}
    (hmem : (k, e) ∈ keys.zip values) :
    ∃ d a b, k = some d ∧ d.literal? = some a ∧ e.literal? = some b ∧ a.isKey = true := by
  cases inGrammar_of_literal? h with
  | display hform => cases hform
  | dict hsome =>
    obtain ⟨pairs, hpairs⟩ := exists_pairs hsome
    obtain ⟨given, entries, hgives, ⟨hkey, -⟩, -⟩ := (literal?_dict hpairs).1 h
    rw [hpairs] at hmem
    obtain ⟨p, hp, heq⟩ := List.mem_map.1 hmem
    cases heq
    obtain ⟨x, hx, hx₁, hx₂⟩ := exists_rel_of_mem hgives hp
    exact ⟨p.1, x.1, x.2, rfl, hx₁, hx₂, hkey x hx⟩

/-- An expression that fails has no value. -/
theorem literal?_of_fails (h : Fails e) : e.literal? = none := by
  refine Option.eq_none_iff_forall_ne_some.2 fun w hw => ?_
  cases h with
  | outside hform => cases (literal?_of_not_inGrammar hform).symm.trans hw
  | sign hv hnone =>
    obtain ⟨v, hv', hsign⟩ := literal?_unary.1 hw
    cases (literal?_eq_some_iff.2 hv).symm.trans hv'
    exact hnone w hsign
  | operation hl hr hnone =>
    obtain ⟨a, b, ha, hb, hcomputes⟩ := literal?_binary.1 hw
    cases (literal?_eq_some_iff.2 hl).symm.trans ha
    cases (literal?_eq_some_iff.2 hr).symm.trans hb
    exact hnone w hcomputes
  | key hd hk hnone =>
    obtain ⟨d', a, b, heq, ha, -, hkey⟩ := exists_given_of_literal? hw hd
    cases heq
    cases (literal?_eq_some_iff.2 hk).symm.trans ha
    cases hnone.symm.trans hkey

/-- All that is needed for a value has one. -/
theorem literal?_of_needs (h : Needs e d) (hd : d.literal? = none) : e.literal? = none := by
  refine Option.eq_none_iff_forall_ne_some.2 fun v hv => ?_
  cases h with
  | element hform hmem =>
    rw [literal?_display hform, literals?_eq_none_iff.2 ⟨d, hmem, hd⟩] at hv
    cases hv
  | key hmem =>
    obtain ⟨d', a, b, heq, ha, -, -⟩ := exists_given_of_literal? hv hmem
    cases heq
    cases hd.symm.trans ha
  | value hmem =>
    obtain ⟨d', a, b, -, -, hb, -⟩ := exists_given_of_literal? hv hmem
    cases hd.symm.trans hb
  | operand hop =>
    obtain ⟨a, ha, -⟩ := literal?_unary.1 hv
    cases hd.symm.trans ha
  | left hop =>
    obtain ⟨a, b, ha, -, -⟩ := literal?_binary.1 hv
    cases hd.symm.trans ha
  | right hop =>
    obtain ⟨a, b, -, hb, -⟩ := literal?_binary.1 hv
    cases hd.symm.trans hb

/-- Pairs have values, or the key or the value of one has none. -/
theorem exists_gives (pairs : List (Expr × Expr)) :
    (∃ given, Gives pairs given) ∨ ∃ p ∈ pairs, p.1.literal? = none ∨ p.2.literal? = none := by
  induction pairs with
  | nil => exact .inl ⟨[], .nil⟩
  | cons p pairs ih =>
    cases hk : p.1.literal? with
    | none => exact .inr ⟨p, List.mem_cons_self, .inl hk⟩
    | some a =>
      cases hv : p.2.literal? with
      | none => exact .inr ⟨p, List.mem_cons_self, .inr hv⟩
      | some b =>
        rcases ih with ⟨given, hgives⟩ | ⟨q, hq, hnone⟩
        · exact .inl ⟨(a, b) :: given, .cons ⟨hk, hv⟩ hgives⟩
        · exact .inr ⟨q, List.mem_cons_of_mem p hq, hnone⟩

/-- Where there is no value, an expression fails by itself or a part that it needs has none. -/
theorem fails_or_exists_needs (h : e.literal? = none) :
    Fails e ∨ ∃ d, Needs e d ∧ d.literal? = none := by
  obtain ⟨s, form⟩ := e
  by_cases hform : form.InGrammar
  case neg => exact .inl (.outside hform)
  cases hform with
  | constant c => cases h
  | display hform =>
    rw [literal?_display hform, Option.map_eq_none_iff, literals?_eq_none_iff] at h
    obtain ⟨d, hd, hnone⟩ := h
    exact .inr ⟨d, .element hform hd, hnone⟩
  | dict hsome =>
    obtain ⟨pairs, hpairs⟩ := exists_pairs hsome
    have hmem {p : Expr × Expr} := mem_zip_of_pairs hpairs (p := p)
    rcases exists_gives pairs with ⟨given, hgives⟩ | ⟨p, hp, hnone | hnone⟩
    · by_cases hkey : ∀ x ∈ given, x.1.isKey = true
      · cases h.symm.trans
          ((literal?_dict hpairs).2 ⟨given, _, hgives, ⟨hkey, collects_foldl _⟩, rfl⟩)
      · obtain ⟨x, hkey⟩ := not_forall.1 hkey
        obtain ⟨hx, hk⟩ := Classical.not_imp.1 hkey
        -- the key is the value of an expression at the same place
        obtain ⟨p, hp, hvalue, -⟩ := exists_rel_of_mem hgives.flip hx
        exact .inl (.key (hmem hp) (literal?_eq_some_iff.1 hvalue)
          (Bool.eq_false_of_not_eq_true hk))
    · exact .inr ⟨p.1, .key (hmem hp), hnone⟩
    · exact .inr ⟨p.2, .value (hmem hp), hnone⟩
  | sign hop e =>
    cases hv : e.literal? with
    | none => exact .inr ⟨e, .operand hop, hv⟩
    | some v =>
      refine .inl (.sign (literal?_eq_some_iff.1 hv) fun w hw => ?_)
      cases h.symm.trans (literal?_unary.2 ⟨v, hv, hw⟩)
  | operation hop l r =>
    cases hl : l.literal? with
    | none => exact .inr ⟨l, .left hop, hl⟩
    | some a =>
      cases hr : r.literal? with
      | none => exact .inr ⟨r, .right hop, hr⟩
      | some b =>
        refine .inl (.operation (literal?_eq_some_iff.1 hl) (literal?_eq_some_iff.1 hr) ?_)
        intro v hv
        cases h.symm.trans (literal?_binary.2 ⟨a, b, hl, hr, hv⟩)

/-- The evaluator gives no value exactly if the expression fails by the grammar of literals. -/
theorem literal?_eq_none_iff : e.literal? = none ↔ ∃ d, Needed e d ∧ Fails d := by
  constructor
  · intro h
    induction e using wellFounded_needs.induction with
    | _ e ih =>
      rcases fails_or_exists_needs h with hfails | ⟨d, hneeds, hd⟩
      · exact ⟨e, .refl, hfails⟩
      · obtain ⟨d', hneeded, hfails⟩ := ih d hneeds hd
        exact ⟨d', .head hneeds hneeded, hfails⟩
  · rintro ⟨d, hneeded, hfails⟩
    induction hneeded using Relation.ReflTransGen.head_induction_on with
    | refl => exact literal?_of_fails hfails
    | head hneeds _ ih => exact literal?_of_needs hneeds ih

end Expr

/-! ## What values are made of -/

/-- A value is another one or stands somewhere in it: in an item, a key or the value of a key. -/
inductive Value.Within : Value → Value → Prop
  | refl (v : Value) : Within v v
  | item {w x : Value} {xs : List Value} (hx : x ∈ xs) (h : Within w x) : Within w (.list xs)
  | key {w : Value} {e : Value × Value} {es : List (Value × Value)} (he : e ∈ es)
      (h : Within w e.1) : Within w (.dict es)
  | value {w : Value} {e : Value × Value} {es : List (Value × Value)} (he : e ∈ es)
      (h : Within w e.2) : Within w (.dict es)

theorem Constant.isKey_toValue (c : Constant) : c.toValue.isKey = true := by
  cases c <;> rfl

namespace Value

variable {a b v w : Value}

theorem Within.eq_of_isKey (h : Within w v) (hv : v.isKey = true) : w = v := by
  cases h with
  | refl => rfl
  | item | key | value => cases hv

theorem Signed.isKey {op : UnaryOp} (h : Signed op a v) : v.isKey = true := by
  cases h <;> rfl

theorem isKey_toValue (r : Numeric) : r.toValue.isKey = true := by
  cases r <;> rfl

theorem Reckons.isKey {onInt : Int → Int → Except Fault Numeric}
    {onFloat : Binary64 → Binary64 → Except Fault Binary64}
    {onComplex : Binary64 × Binary64 → Binary64 × Binary64 → Except Fault (Binary64 × Binary64)}
    (h : Reckons onInt onFloat onComplex a b v) : v.isKey = true := by
  cases h with
  | ints => exact isKey_toValue _
  | floats | complexes => rfl

theorem Joins.within (h : Joins a b v) (hw : Within w v) : w = v ∨ Within w a ∨ Within w b := by
  cases h with
  | texts | bytes => exact .inl (hw.eq_of_isKey rfl)
  | lists xs ys =>
    cases hw with
    | refl => exact .inl rfl
    | item hx h => exact .inr ((List.mem_append.1 hx).imp (.item · h) (.item · h))

theorem Copies.within {n : Int} (h : Copies n a v) (hw : Within w v) : w = v ∨ Within w a := by
  cases h with
  | text | bytes => exact .inl (hw.eq_of_isKey rfl)
  | list h =>
    cases hw with
    | refl => exact .inl rfl
    | item hx hw =>
      rw [h.eq] at hx
      obtain ⟨copy, hcopy, hx⟩ := List.mem_flatten.1 hx
      rw [List.eq_of_mem_replicate hcopy] at hx
      exact .inr (.item hx hw)

end Value

open Value

/-- What is in the result of an operation is in an operand, except for the result itself. -/
theorem Computes.within {op : BinaryOp} {a b v w : Value} (h : Computes op a b v)
    (hw : Within w v) : w = v ∨ Within w a ∨ Within w b := by
  cases h with
  | sum h | difference h | product h | quotient h => exact .inl (hw.eq_of_isKey h.isKey)
  | joined h => exact h.within hw
  | copied ha hb => exact (ha.within hw).imp_right .inl
  | copies ha hb => exact (hb.within hw).imp_right .inr

/-- What is collected has keys and values that were given. -/
theorem Collects.mem {entries es : List (Value × Value)} (h : Collects entries es)
    {e : Value × Value} (he : e ∈ es) :
    e.1 ∈ entries.map Prod.fst ∧ e.2 ∈ entries.map Prod.snd := by
  induction h with
  | nil => cases he
  | @cons key value rest entries h ih =>
    have hpart {β : Type} (f : Value × Value → β) (p : Value × Value → Bool) :
        (rest.filter p).map f ⊆ rest.map f :=
      List.map_subset f (List.filter_subset_self rest)
    rw [List.map_cons, List.map_cons]
    rcases List.mem_cons.1 he with rfl | he
    · exact ⟨List.mem_cons_self, List.cons_subset_cons _ (hpart _ _) List.getLastD_mem_cons⟩
    · obtain ⟨hkey, hvalue⟩ := ih he
      exact ⟨List.mem_cons_of_mem _ (hpart _ _ hkey), List.mem_cons_of_mem _ (hpart _ _ hvalue)⟩

namespace Expr

variable {e : Expr} {v w : Value}

/-- What is in the value of an expression is the value of one that it needs. -/
theorem exists_needed_of_within (h : e.literal? = some v) (hw : Within w v) :
    ∃ d, Needed e d ∧ d.literal? = some w := by
  induction e using wellFounded_needs.induction generalizing v w with
  | _ e ih =>
    obtain ⟨s, form⟩ := e
    have hpart {d : Expr} {x : Value} (hneeds : Needs (.node s form) d)
        (hd : d.literal? = some x) (hw : Within w x) :
        ∃ d', Needed (.node s form) d' ∧ d'.literal? = some w := by
      obtain ⟨d', hneeded, hvalue⟩ := ih d hneeds hd hw
      exact ⟨d', .head hneeds hneeded, hvalue⟩
    -- all that is in the value, except for itself, comes from the value of a part
    by_cases hself : w = v
    · exact ⟨_, .refl, hself ▸ h⟩
    cases inGrammar_of_literal? h with
    | constant c =>
      cases h
      exact absurd (hw.eq_of_isKey (Constant.isKey_toValue c)) hself
    | display hform =>
      rw [literal?_display hform] at h
      obtain ⟨vs, hvs, rfl⟩ := Option.map_eq_some_iff.1 h
      cases hw with
      | refl => exact absurd rfl hself
      | item hx hw =>
        obtain ⟨d, hd, hvalue⟩ := exists_mem_of_literals? hvs hx
        exact hpart (.element hform hd) hvalue hw
    | dict hsome =>
      obtain ⟨pairs, hpairs⟩ := exists_pairs hsome
      obtain ⟨given, entries, hgives, ⟨-, hcollects⟩, rfl⟩ := (literal?_dict hpairs).1 h
      have hmem {p : Expr × Expr} := mem_zip_of_pairs hpairs (p := p)
      cases hw with
      | refl => exact absurd rfl hself
      | key he hw =>
        obtain ⟨x, hx, heq⟩ := List.mem_map.1 (hcollects.mem he).1
        obtain ⟨p, hp, hvalue, -⟩ := exists_rel_of_mem hgives.flip hx
        exact hpart (.key (hmem hp)) hvalue (heq ▸ hw)
      | value he hw =>
        obtain ⟨x, hx, heq⟩ := List.mem_map.1 (hcollects.mem he).2
        obtain ⟨p, hp, -, hvalue⟩ := exists_rel_of_mem hgives.flip hx
        exact hpart (.value (hmem hp)) hvalue (heq ▸ hw)
    | sign hop d =>
      obtain ⟨a, -, hsign⟩ := literal?_unary.1 h
      exact absurd (hw.eq_of_isKey hsign.isKey) hself
    | operation hop l r =>
      obtain ⟨a, b, ha, hb, hcomputes⟩ := literal?_binary.1 h
      rcases (hcomputes.within hw).resolve_left hself with hw | hw
      · exact hpart (.left hop) ha hw
      · exact hpart (.right hop) hb hw

end Expr

end RouteLens
