import RouteLens.Proofs.Outcomes
import RouteLens.Proofs.Tree.Literals
import RouteLens.Tree.Evaluation

/-!
# The evaluation of literals is exact and safe

The evaluation passes over every fault that an operation or a key may have, so that it ends without
a result only where its calls are nested too deeply, or a list would be longer than lists can be
(`Expr.Stops`).  Where it ends with a result, this is the value that the grammar gives, or the mark
of a missing one if there is none; the mark itself is nowhere in a value (`Expr.evaluate_exact`).
Room for the calls that may be nested is enough (`Expr.evaluate_eq_marked`), and no fixed room is
enough for all expressions (`Expr.evaluate_onesSum`).
-/

namespace RouteLens

open Value

/-! ## The faults of operations -/

/-- An evaluation passes over the fault of an operation. -/
def Fault.IsPassed (f : Fault) : Prop :=
  f.class?.any [FaultClass.kind, .zeroDivision, .range].contains = true

namespace Numeric

theorem succeeds_floatOfInt (n : Int) : Succeeds Fault.IsPassed (floatOfInt n) := by
  unfold floatOfInt
  cases Binary64.ofInt? n with
  | none => exact .error rfl
  | some x => exact succeeds_ok x

theorem succeeds_toFloat (p : Numeric) : Succeeds Fault.IsPassed p.toFloat := by
  cases p with
  | int n => exact succeeds_floatOfInt n
  | float x => exact succeeds_ok x
  | complex re im => exact .error rfl

theorem succeeds_toComplex (p : Numeric) : Succeeds Fault.IsPassed p.toComplex := by
  cases p with
  | int n => exact (succeeds_floatOfInt n).map fun _ _ => trivial
  | float x => exact succeeds_ok _
  | complex re im => exact succeeds_ok _

theorem succeeds_combine {onInt : Int → Int → Except Fault Numeric}
    {onFloat : Binary64 → Binary64 → Except Fault Binary64}
    {onComplex : Binary64 × Binary64 → Binary64 × Binary64 → Except Fault (Binary64 × Binary64)}
    (hint : ∀ m n, Succeeds Fault.IsPassed (onInt m n))
    (hfloat : ∀ x y, Succeeds Fault.IsPassed (onFloat x y))
    (hcomplex : ∀ x y, Succeeds Fault.IsPassed (onComplex x y)) (p q : Numeric) :
    Succeeds Fault.IsPassed (combine onInt onFloat onComplex p q) := by
  unfold combine
  split
  case h_1 m n => exact hint m n
  case h_4 =>
    exact (succeeds_toFloat _).bind fun x _ => (succeeds_toFloat _).bind fun y _ =>
      (hfloat x y).bind fun _ _ => succeeds_ok _
  all_goals
    exact (succeeds_toComplex _).bind fun x _ => (succeeds_toComplex _).bind fun y _ =>
      (hcomplex x y).bind fun _ _ => succeeds_ok _

theorem succeeds_divInt (m n : Int) : Succeeds Fault.IsPassed (divInt m n) := by
  unfold divInt
  split
  · exact .error rfl
  · cases Binary64.ofIntRatio? m n with
    | none => exact .error rfl
    | some x => exact succeeds_ok _

theorem succeeds_divFloat (x y : Binary64) : Succeeds Fault.IsPassed (divFloat x y) := by
  unfold divFloat
  split
  · exact .error rfl
  · exact succeeds_ok _

theorem succeeds_divComplex (x y : Binary64 × Binary64) :
    Succeeds Fault.IsPassed (divComplex x y) := by
  unfold divComplex
  split
  · exact succeeds_ok _
  · exact succeeds_ok _
  · split
    · exact .error rfl
    · exact succeeds_ok _

end Numeric

namespace Value

/-- A list repeated by a number would be longer than a list can be. -/
def Overlong (a b : Value) : Prop :=
  ∃ xs n, a = .list xs ∧ IsInt b n ∧ n ≤ maxLength ∧ maxLength < xs.length * n.toNat

theorem succeeds_onNumbers {f : Numeric → Numeric → Except Fault Numeric}
    (hf : ∀ p q, Succeeds Fault.IsPassed (f p q)) (a b : Value) :
    Succeeds Fault.IsPassed (onNumbers f a b) := by
  unfold onNumbers
  split
  · exact (hf _ _).map fun _ _ => trivial
  · exact .error rfl

theorem succeeds_repeated {α : Type} {S : Fault → Prop} {long : Fault} {xs : List α} {n : Int}
    (hrange : S .lengthTooLarge)
    (hlong : n ≤ maxLength → maxLength < xs.length * n.toNat → S long) :
    Succeeds S (repeated long xs n) := by
  unfold repeated
  split
  case isTrue => exact .error hrange
  case isFalse hn =>
    split
    case isTrue h => exact .error (hlong (by omega) h)
    case isFalse =>
      split
      · exact succeeds_ok _
      · exact succeeds_ok _

/-- A sequence is repeated, or the fault is passed over, or a list would be too long. -/
theorem succeeds_repeatSequence {a b : Value} {n : Int} (hb : IsInt b n) :
    Succeeds (fun f => f.IsPassed ∨ f = .outOfMemory ∧ Overlong a b) (repeatSequence a n) := by
  unfold repeatSequence
  split
  case h_3 xs =>
    refine (succeeds_repeated (.inl rfl) fun hn h => ?_).map fun _ _ => trivial
    exact .inr ⟨rfl, xs, n, rfl, hb, hn, h⟩
  case h_4 => exact .error (.inl rfl)
  all_goals exact (succeeds_repeated (.inl rfl) fun _ _ => .inl rfl).map fun _ _ => trivial

end Value

/-- An operation has a result, or its fault is passed over, or a list would be too long. -/
theorem BinaryOp.succeeds_apply {op : BinaryOp} {f : Value → Value → Except Fault Value}
    (hop : op.onValues? = some f) (a b : Value) :
    Succeeds (fun f => f.IsPassed ∨ f = .outOfMemory ∧ op = .mul ∧ (Overlong a b ∨ Overlong b a))
      (f a b) := by
  have hnumbers {f : Numeric → Numeric → Except Fault Numeric}
      (hf : ∀ p q, Succeeds Fault.IsPassed (f p q)) : Succeeds (fun f => f.IsPassed ∨
        f = .outOfMemory ∧ op = .mul ∧ (Overlong a b ∨ Overlong b a)) (onNumbers f a b) :=
    (succeeds_onNumbers hf a b).mono (fun _ => .inl) fun _ h => h
  cases op <;> cases hop
  case add =>
    unfold Value.add
    split
    case h_4 =>
      exact hnumbers (Numeric.succeeds_combine (fun _ _ => succeeds_ok _) (fun _ _ => succeeds_ok _)
        fun _ _ => succeeds_ok _)
    all_goals exact succeeds_ok _
  case sub =>
    exact hnumbers (Numeric.succeeds_combine (fun _ _ => succeeds_ok _) (fun _ _ => succeeds_ok _)
      fun _ _ => succeeds_ok _)
  case mul =>
    unfold Value.mul
    split
    case h_1 p q ha hb =>
      have hmul : Succeeds Fault.IsPassed (Numeric.mul p q) :=
        Numeric.succeeds_combine (fun _ _ => succeeds_ok _) (fun _ _ => succeeds_ok _)
          (fun _ _ => succeeds_ok _) p q
      exact (hmul.mono (fun _ => .inl) fun _ h => h).map fun _ _ => trivial
    case h_2 =>
      cases hb : count? b with
      | none => exact .error (.inl rfl)
      | some n =>
        refine (succeeds_repeatSequence (count?_eq_some_iff.1 hb)).mono (fun f h => ?_) fun _ h => h
        exact h.imp_right fun h => ⟨h.1, rfl, .inl h.2⟩
    case h_3 =>
      cases ha : count? a with
      | none => exact .error (.inl rfl)
      | some n =>
        refine (succeeds_repeatSequence (count?_eq_some_iff.1 ha)).mono (fun f h => ?_) fun _ h => h
        exact h.imp_right fun h => ⟨h.1, rfl, .inr h.2⟩
  case div =>
    exact hnumbers (Numeric.succeeds_combine Numeric.succeeds_divInt Numeric.succeeds_divFloat
      Numeric.succeeds_divComplex)

/-! ## The mark of a missing value -/

theorem Numeric.toValue_ne_missing (r : Numeric) : r.toValue ≠ .missing := by
  cases r <;> nofun

theorem Computes.ne_missing {op : BinaryOp} {a b v : Value} (h : Computes op a b v) :
    v ≠ .missing := by
  have hreckons {onInt : Int → Int → Except Fault Numeric}
      {onFloat : Binary64 → Binary64 → Except Fault Binary64}
      {onComplex : Binary64 × Binary64 → Binary64 × Binary64 → Except Fault (Binary64 × Binary64)}
      (h : Reckons onInt onFloat onComplex a b v) : v ≠ .missing := by
    cases h with
    | ints => exact Numeric.toValue_ne_missing _
    | floats | complexes => nofun
  cases h with
  | sum h | difference h | product h | quotient h => exact hreckons h
  | joined h => cases h <;> nofun
  | copied h => cases h <;> nofun
  | copies _ h => cases h <;> nofun

namespace Expr

variable {e d : Expr} {es : List Expr} {s : Span} {room inner : Nat} {f : Fault}
  {S : Fault → Prop} {ev : Expr → Except Fault Value}

theorem HasValue.ne_missing {v : Value} (h : HasValue e v) : v ≠ .missing := by
  cases h with
  | constant c => cases c <;> nofun
  | display | dict => nofun
  | sign _ h => cases h <;> nofun
  | operation _ _ h => exact h.ne_missing

/-- The value of an expression, or the mark of a missing one. -/
def marked (e : Expr) : Value :=
  e.literal?.getD .missing

theorem isMissing_getD {v : Option Value} (h : v ≠ some .missing) :
    (v.getD .missing).isMissing = v.isNone := by
  cases v with
  | none => rfl
  | some v => cases v <;> first | rfl | exact (h rfl).elim

theorem literal?_ne_missing (e : Expr) : e.literal? ≠ some .missing :=
  fun h => (literal?_eq_some_iff.1 h).ne_missing rfl

theorem isMissing_marked (e : Expr) : e.marked.isMissing = e.literal?.isNone :=
  isMissing_getD e.literal?_ne_missing

/-! ## The steps of the evaluation -/

theorem meets_mapM {α β : Type} {g : α → β} {f : α → Except Fault β} {as : List α}
    (h : ∀ a ∈ as, Meets S (· = g a) (f a)) : Meets S (· = as.map g) (as.mapM f) := by
  induction as with
  | nil => exact .ok rfl
  | cons a as ih =>
    rw [List.mapM_cons]
    refine (h a List.mem_cons_self).bind fun b hb => ?_
    refine (ih fun a ha => h a (List.mem_cons_of_mem _ ha)).bind fun bs hbs => .ok ?_
    rw [hb, hbs, List.map_cons]

/-- The mark is among the elements of a display exactly if one of them has no value. -/
theorem any_isMissing (es : List Expr) :
    (es.map marked).any isMissing = (literals? es).isNone := by
  induction es with
  | nil => rfl
  | cons e es ih =>
    rw [List.map_cons, List.any_cons, ih, isMissing_marked, literals?]
    cases e.literal? <;> cases literals? es <;> rfl

theorem map_marked {vs : List Value} (h : literals? es = some vs) : es.map marked = vs := by
  have hall := literals?_eq_some_iff.1 h
  clear h
  induction hall with
  | nil => rfl
  | cons hv _ ih => rw [List.map_cons, ih, marked, hv, Option.getD_some]

theorem meets_evaluateElements (h : ∀ e ∈ es, Meets S (· = e.marked) (ev e)) :
    Meets S (· = ((literals? es).map .list).getD .missing) (evaluateElements ev es) := by
  unfold evaluateElements
  refine (meets_mapM h).bind fun items hitems => ?_
  rw [hitems, any_isMissing]
  cases hes : literals? es with
  | none => exact .ok rfl
  | some vs => exact .ok (congrArg Value.list (map_marked hes))

/-- The entries of a dictionary are filled in one after the other, as far as they are complete and
their keys can be keys. -/
theorem meets_evaluateEntries {done : List (Value × Value)} {pairs : List (Option Expr × Expr)}
    (hkey : ∀ p ∈ pairs, ∀ k ∈ p.1, Meets S (· = k.marked) (ev k))
    (hvalue : ∀ p ∈ pairs, Meets S (· = p.2.marked) (ev p.2)) :
    Meets S (· = ((ExprForm.literal?.entries done (pairs.map fun p =>
      (p.1.bind Expr.literal?, p.2.literal?))).map .dict).getD .missing)
      (evaluateEntries ev done pairs) := by
  induction pairs generalizing done with
  | nil => exact .ok rfl
  | cons p pairs ih =>
    obtain ⟨k, e⟩ := p
    have hk : Meets S (· = (k.bind Expr.literal?).getD .missing) (evaluateKey ev k) := by
      cases k with
      | none => exact .ok rfl
      | some k => exact hkey _ List.mem_cons_self k rfl
    have hne : k.bind Expr.literal? ≠ some .missing := by
      cases k with
      | none => nofun
      | some k => exact k.literal?_ne_missing
    rw [evaluateEntries, List.map_cons]
    refine hk.bind fun key hkey' => ?_
    refine (hvalue _ List.mem_cons_self).bind fun value hvalue' => ?_
    rw [hkey', hvalue', isMissing_getD hne, isMissing_marked, marked]
    cases k.bind Expr.literal? with
    | none => exact .ok rfl
    | some a =>
      cases e.literal? with
      | none => exact .ok rfl
      | some b =>
        simp only [Option.isNone_some, Bool.or_self, Bool.false_eq_true, if_false,
          Option.getD_some, setEntry, ExprForm.literal?.entries]
        split
        · exact ih (fun p hp => hkey p (List.mem_cons_of_mem _ hp))
            fun p hp => hvalue p (List.mem_cons_of_mem _ hp)
        · exact .ok rfl

/-! ## Where it stops -/

/-- A product that repeats a list beyond what a list can be. -/
inductive Exhausts : Expr → Prop
  | intro {s : Span} {l r : Expr} {a b : Value} (hl : HasValue l a) (hr : HasValue r b)
      (h : Overlong a b ∨ Overlong b a) : Exhausts (.node s (.binary l .mul r))

/-- The calls for an expression may be nested so deeply: one call for each needed part on the way
down, and one more between a display and its elements. -/
inductive Nests : Expr → Nat → Prop
  | call (e : Expr) : Nests e 1
  | display {s : Span} {form : ExprForm} {es : List Expr} (hform : form.Displays es) :
      Nests (.node s form) 2
  | part {e d : Expr} {n : Nat} (hneeds : Needs e d) (h : Nests d n) : Nests e (n + 1)
  | element {s : Span} {form : ExprForm} {es : List Expr} {d : Expr} {n : Nat}
      (hform : form.Displays es) (hd : d ∈ es) (h : Nests d n) : Nests (.node s form) (n + 2)

/-- The faults that end an evaluation: the room does not suffice for the calls, or a list that is
needed would be too long. -/
def Stops (room : Nat) (e : Expr) (f : Fault) : Prop :=
  (f = .tooDeep ∧ ∃ n, Nests e n ∧ room < n) ∨ (f = .outOfMemory ∧ ∃ d, Needed e d ∧ Exhausts d)

theorem Stops.of_part (hneeds : Needs e d) (h : Stops inner d f) : Stops (inner + 1) e f := by
  obtain ⟨rfl, n, hn, h⟩ | ⟨rfl, x, hx, h⟩ := h
  · exact .inl ⟨rfl, n + 1, .part hneeds hn, Nat.succ_lt_succ h⟩
  · exact .inr ⟨rfl, x, .head hneeds hx, h⟩

theorem Stops.of_element {form : ExprForm} (hform : form.Displays es) (hd : d ∈ es)
    (h : Stops inner d f) : Stops (inner + 2) (.node s form) f := by
  obtain ⟨rfl, n, hn, h⟩ | ⟨rfl, x, hx, h⟩ := h
  · exact .inl ⟨rfl, n + 2, .element hform hd hn, Nat.add_lt_add_right h 2⟩
  · exact .inr ⟨rfl, x, .head (.element hform hd) hx, h⟩

/-- A fault of an operation is passed over, unless a list would be too long. -/
theorem meets_passing {op : BinaryOp} {g : Value → Value → Except Fault Value} {l r : Expr}
    {a b : Value} (hop : op.onValues? = some g) (ha : l.literal? = some a)
    (hb : r.literal? = some b) :
    Meets (Stops room (.node s (.binary l op r))) (· = (g a b).toOption.getD .missing)
      (Fault.passing [.kind, .zeroDivision, .range] (g a b)) := by
  have happly := BinaryOp.succeeds_apply hop a b
  cases hg : g a b with
  | ok v => exact .ok rfl
  | error f =>
    rw [hg] at happly
    cases happly with
    | error hf =>
      rcases hf with hf | ⟨rfl, rfl, h⟩
      · have hpassed : Fault.passing [.kind, .zeroDivision, .range] (.error f) = .ok .missing :=
          if_pos hf
        exact hpassed ▸ .ok rfl
      · exact .error (.inr ⟨rfl, _, .refl,
          .intro (literal?_eq_some_iff.1 ha) (literal?_eq_some_iff.1 hb) h⟩)

section Forms

variable {form : ExprForm}

theorem evaluate_display_one (h : form.Displays es) :
    evaluate 1 (.node s form) = .error .tooDeep := by
  cases h <;> rfl

theorem evaluate_display (h : form.Displays es) :
    evaluate (inner + 2) (.node s form) = evaluateElements (evaluate inner) es := by
  cases h <;> rfl

theorem marked_sign (op : UnaryOp) :
    (Expr.node s (.unary op d)).marked = (op.onValue? d.marked).getD .missing := by
  have hmissing : op.onValue? .missing = none := by cases op <;> rfl
  rw [marked, literal?, ExprForm.literal?, marked]
  cases d.literal? with
  | none => rw [Option.getD_none, hmissing, Option.getD_none]
  | some v => rfl

end Forms

/-- An evaluation gives the value of an expression or the mark of a missing one, unless it stops. -/
theorem meets_evaluate (room : Nat) (e : Expr) :
    Meets (Stops room e) (· = e.marked) (evaluate room e) := by
  induction e using wellFounded_needs.induction generalizing room with
  | _ e ih =>
    obtain ⟨s, form⟩ := e
    have hpart {d : Expr} (hneeds : Needs (.node s form) d) {inner : Nat} :
        Meets (Stops (inner + 1) (.node s form)) (· = d.marked) (evaluate inner d) :=
      (ih d hneeds inner).mono (fun f hf => hf.of_part hneeds) fun _ h => h
    have hdisplay {es : List Expr} (hform : form.Displays es) (room : Nat) :
        Meets (Stops (room + 1) (.node s form)) (· = (Expr.node s form).marked)
          (evaluate (room + 1) (.node s form)) := by
      cases room with
      | zero =>
        rw [evaluate_display_one hform]
        exact .error (.inl ⟨rfl, 2, .display hform, Nat.lt_succ_self 1⟩)
      | succ inner =>
        rw [evaluate_display hform, marked, literal?_display hform]
        refine meets_evaluateElements fun d hd => ?_
        exact (ih d (.element hform hd) inner).mono
          (fun f hf => hf.of_element hform hd) fun _ h => h
    cases room with
    | zero => exact .error (.inl ⟨rfl, 1, .call _, Nat.zero_lt_one⟩)
    | succ room =>
      cases form with
      | constant c => exact .ok rfl
      | list es => exact hdisplay (.list es) room
      | tuple es => exact hdisplay (.tuple es) room
      | set es => exact hdisplay (.set es) room
      | dict keys values =>
        rw [evaluate, marked, literal?_pairs]
        refine meets_evaluateEntries (fun p hp k hk => hpart ?_)
          fun p hp => hpart (.value hp)
        obtain ⟨key, e⟩ := p
        cases hk
        exact .key hp
      | unary op d =>
        rw [evaluate]
        split
        case isTrue hop =>
          refine (hpart (.operand (by simpa using hop))).bind fun v hv => .ok ?_
          rw [hv, marked_sign]
        case isFalse hop =>
          rw [marked, literal?_of_not_inGrammar]
          · exact .ok rfl
          · rintro (_ | h | _ | hop')
            · cases h
            · exact hop (by simpa using hop')
      | binary l op r =>
        rw [evaluate, marked, literal?, ExprForm.literal?]
        cases hop : op.onValues? with
        | none => exact .ok rfl
        | some g =>
          have hop' := mem_of_onValues? hop
          refine (hpart (.left hop')).bind fun a ha => ?_
          refine (hpart (.right hop')).bind fun b hb => ?_
          rw [ha, hb, isMissing_marked, isMissing_marked, marked, marked]
          cases hl : l.literal? with
          | none => exact .ok rfl
          | some a =>
            cases hr : r.literal? with
            | none => exact .ok rfl
            | some b => exact meets_passing hop hl hr
      | _ => exact .ok rfl

theorem marked_eq_missing_iff : e.marked = .missing ↔ e.literal? = none := by
  have hmissing := isMissing_marked e
  constructor
  · intro h
    rw [h] at hmissing
    exact Option.isNone_iff_eq_none.1 hmissing.symm
  · intro h
    rw [marked, h, Option.getD_none]

theorem hasValue_iff_marked {v : Value} : HasValue e v ↔ e.marked = v ∧ v ≠ .missing := by
  constructor
  · intro h
    rw [marked, literal?_eq_some_iff.2 h]
    exact ⟨rfl, h.ne_missing⟩
  · rintro ⟨rfl, hne⟩
    obtain ⟨v, hv⟩ := Option.ne_none_iff_exists'.1 (mt marked_eq_missing_iff.2 hne)
    rw [marked, hv]
    exact literal?_eq_some_iff.1 hv

/-- The evaluation of literals is exact and safe.  It passes over all faults of operations and keys:
what ends it is that its calls may be nested more deeply than there is room, or a list that is
longer than a list can be.  Else it gives the value that the grammar gives, and the mark of a
missing value exactly if an expression that is needed fails by itself.  The mark is nowhere in a
value: what a value is made of, at any depth, is the value of a needed expression. -/
theorem evaluate_exact (e : Expr) (room : Nat) :
    (∀ f, evaluate room e = .error f → Stops room e f) ∧
    ∀ r, evaluate room e = .ok r →
      (∀ v, HasValue e v ↔ r = v ∧ v ≠ .missing) ∧
      (r = .missing ↔ ∃ d, Needed e d ∧ Fails d) ∧
      (r ≠ .missing → ∀ w, Within w r → w ≠ .missing ∧ ∃ d, Needed e d ∧ HasValue d w) := by
  have hmeets := meets_evaluate room e
  refine ⟨fun f hf => ?_, fun r hr => ?_⟩
  · rw [hf] at hmeets
    cases hmeets with
    | error h => exact h
  · rw [hr] at hmeets
    cases hmeets with
    | ok hmarked =>
      subst hmarked
      refine ⟨fun v => hasValue_iff_marked, marked_eq_missing_iff.trans literal?_eq_none_iff, ?_⟩
      intro hne w hw
      have hvalue := literal?_eq_some_iff.2 (hasValue_iff_marked.2 ⟨rfl, hne⟩)
      obtain ⟨d, hd, hdw⟩ := exists_needed_of_within hvalue hw
      have hdw := literal?_eq_some_iff.1 hdw
      exact ⟨hdw.ne_missing, d, hd, hdw⟩

/-- The dictionary `{1: 'a', True: [-2] * 2}` has one key, the first one, with the value given last;
the number in it is the value of `-2`. -/
theorem evaluate_exact_overwritten :
    let e : Expr := .node default (.dict
      [some (.node default (.constant (.int 1))), some (.node default (.constant (.bool true)))]
      [.node default (.constant (.text "a" false)), .node default (.binary
        (.node default (.list
          [.node default (.unary .minus (.node default (.constant (.int 2))))]))
        .mul (.node default (.constant (.int 2))))])
    evaluate callLimit e = .ok (.dict [(.int 1, .list [.int (-2), .int (-2)])]) ∧
      ∃ d, Needed e d ∧ HasValue d (.int (-2)) := by
  intro e
  have hvalue : evaluate callLimit e =
      .ok (.dict [(.int 1, .list [.int (-2), .int (-2)])]) := by rfl
  obtain ⟨-, -, hwithin⟩ := (evaluate_exact e callLimit).2 _ hvalue
  obtain ⟨-, hneeded⟩ := hwithin (by nofun) _
    (.value List.mem_cons_self (.item List.mem_cons_self (.refl _)))
  exact ⟨hvalue, hneeded⟩

/-- In room for its calls, an expression that needs no overlong list is evaluated to the value that
it spells out. -/
theorem evaluate_eq_marked (hroom : ∀ n, Nests e n → n ≤ room)
    (h : ∀ d, Needed e d → ¬ Exhausts d) : evaluate room e = .ok e.marked := by
  have hmeets := meets_evaluate room e
  obtain ⟨r, hr, rfl⟩ := hmeets.exists_ok fun f hf => by
    obtain ⟨-, n, hn, hf⟩ | ⟨-, d, hd, hexhausts⟩ := hf
    · exact Nat.not_lt.2 (hroom n hn) hf
    · exact h d hd hexhausts
  exact hr

/-! ## No room is enough for all -/

/-- The number one. -/
def one : Expr :=
  .node default (.constant (.int 1))

/-- The sum of one and so many more ones, added from the left. -/
def onesSum : Nat → Expr
  | 0 => one
  | n + 1 => .node default (.binary (onesSum n) .add one)

theorem hasValue_onesSum (n : Nat) : HasValue (onesSum n) (.int (n + 1)) := by
  induction n with
  | zero => exact .constant (.int 1)
  | succ n ih =>
    have hsum : Computes .add (.int (n + 1)) (.int 1) (.int (n + 1 + 1)) :=
      .sum (.ints (r := .int (n + 1 + 1)) (.int _) (.int 1) rfl)
    exact .operation ih (.constant (.int 1)) hsum

theorem evaluate_onesSum {n : Nat} (h : room ≤ n) :
    evaluate room (onesSum n) = .error .tooDeep := by
  induction n generalizing room with
  | zero =>
    cases Nat.le_zero.1 h
    rfl
  | succ n ih =>
    cases room with
    | zero => rfl
    | succ room =>
      rw [onesSum, evaluate]
      simp only [BinaryOp.onValues?]
      rw [ih (Nat.le_of_succ_le_succ h), error_bind]

/-- A sum of 1500 ones has a value, and its evaluation is nested too deeply. -/
theorem evaluate_onesSum_tooDeep :
    HasValue (onesSum 1499) (.int 1500) ∧
      evaluate callLimit (onesSum 1499) = .error .tooDeep :=
  ⟨hasValue_onesSum 1499, evaluate_onesSum (by decide)⟩

end Expr

end RouteLens
