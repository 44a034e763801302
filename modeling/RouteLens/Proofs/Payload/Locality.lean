import Mathlib.Data.List.Forall2
import Mathlib.Data.Set.Basic
import RouteLens.Proofs.Payload.Limit

/-!
# What a payload depends on

Payload synthesis looks up the class that it is asked for, the bases of the classes that it meets,
and the classes that their fields refer to.  A set of names that holds the first and is closed under
the others (`PayloadRules.ClosedAt`) is all that it ever asks for.

Two syntheses are run side by side, each with its own way to look up classes.  `Inquiry.Alike` says
that they ask for the same names, all of them in the set, and come to related results.  The classes
that the two find for one name say the same but may stand in different files, so that what was
visited is compared by name (`SameSeen`), and fields by what their declarations say (`SameFields`).
-/

namespace RouteLens

variable {edition : Nat} [CharacterNames edition]

/-! ## References -/

mutual

/-- The names of classes that a type refers to: by itself, or through its elements. -/
inductive FieldType.Refers : FieldType → String → Prop
  | itself {f : FieldFacts} {element : Option ElementType} {fixed : Option (List ElementType)}
      {n : String} (h : f.classRef = some n) (hn : n.isEmpty = false) :
      FieldType.Refers (.mk f element fixed) n
  | element {f : FieldFacts} {e : ElementType} {fixed : Option (List ElementType)} {n : String}
      (h : ElementType.Refers e n) : FieldType.Refers (.mk f (some e) fixed) n
  | fixed {f : FieldFacts} {element : Option ElementType} {es : List ElementType} {e : ElementType}
      {n : String} (he : e ∈ es) (h : ElementType.Refers e n) :
      FieldType.Refers (.mk f element (some es)) n

/-- The names of classes that the type of an element refers to. -/
inductive ElementType.Refers : ElementType → String → Prop
  | known {typeExpr : Expr} {t : FieldType} {n : String} (h : FieldType.Refers t n) :
      ElementType.Refers (.mk typeExpr (.ok t)) n

end

mutual

/-- The names that a type refers to, in a list. -/
def FieldType.references : FieldType → List String
  | .mk f element fixed =>
    (f.classRef.filter fun n => !n.isEmpty).toList ++ someReferences element ++
      fixedReferences fixed

/-- The names that the type of an element refers to, in a list. -/
def ElementType.references : ElementType → List String
  | .mk _ (.ok t) => t.references
  | .mk _ (.error _) => []

/-- The names that elements of one type refer to, if the type is known. -/
def someReferences : Option ElementType → List String
  | none => []
  | some e => e.references

/-- The names that elements refer to, if their types are known one by one. -/
def fixedReferences : Option (List ElementType) → List String
  | none => []
  | some es => allReferences es

/-- The names that elements refer to. -/
def allReferences : List ElementType → List String
  | [] => []
  | e :: es => e.references ++ allReferences es

end

theorem mem_allReferences {es : List ElementType} {e : ElementType} {n : String} (he : e ∈ es)
    (h : n ∈ e.references) : n ∈ allReferences es := by
  induction es with
  | nil => cases he
  | cons e' es ih =>
    rw [allReferences, List.mem_append]
    rcases List.mem_cons.1 he with rfl | he
    · exact .inl h
    · exact .inr (ih he)

mutual

theorem FieldType.Refers.mem_references :
    ∀ {t : FieldType} {n : String}, t.Refers n → n ∈ t.references
  | _, _, .itself h hn => by
    rw [FieldType.references, h]
    simp [hn]
  | _, _, .element h => by
    rw [FieldType.references, someReferences]
    simp [h.mem_references]
  | _, _, .fixed he h => by
    rw [FieldType.references, fixedReferences]
    simp [mem_allReferences he h.mem_references]

theorem ElementType.Refers.mem_references :
    ∀ {e : ElementType} {n : String}, e.Refers n → n ∈ e.references
  | _, _, .known h => by
    rw [ElementType.references]
    exact h.mem_references

end

/-- What a class refers to is in a set: its bases that are looked up, and what its own fields refer
to. -/
structure PayloadRules.ClosedAt (r : PayloadRules) (S : Set String) (k : ClassDecl) : Prop where
  bases : ∀ names, k.baseNames = .ok names →
    ∀ n ∈ names, n ∉ r.schemaBases → n ∉ r.enumBases → n ∈ S
  fields : ∀ p ∈ k.properties, ∀ t, p.fieldType = .ok t → ∀ n, t.Refers n → n ∈ S

/-- Whether what a class refers to is among some names. -/
def PayloadRules.refersWithin (r : PayloadRules) (names : List String) (k : ClassDecl) : Bool :=
  (k.baseNames.toOption.all fun bases => bases.all fun n =>
    r.schemaBases.contains n || r.enumBases.contains n || names.contains n) &&
  k.properties.all fun p => p.fieldType.toOption.all fun t => t.references.all names.contains

theorem PayloadRules.closedAt_of_refersWithin {r : PayloadRules} {names : List String}
    {k : ClassDecl} (h : r.refersWithin names k = true) : r.ClosedAt { n | n ∈ names } k := by
  rw [refersWithin, Bool.and_eq_true, List.all_eq_true] at h
  constructor
  · intro bases hbases n hn hschema henum
    have hall := h.1
    rw [hbases] at hall
    have hmem := List.all_eq_true.1 hall n hn
    simpa [hschema, henum] using hmem
  · intro p hp t ht n hn
    have hall := h.2 p hp
    rw [ht] at hall
    have hmem := List.all_eq_true.1 hall n hn.mem_references
    simpa using hmem

/-- Two classes are declared in the same way, whatever files and places they stand in. -/
def ClassDecl.SameAs (k k' : ClassDecl) : Prop :=
  k' = { k with unit := k'.unit, number := k'.number }

namespace ClassDecl.SameAs

variable {k k' k'' : ClassDecl} {a b c : Option ClassDecl}

theorem symm (h : k.SameAs k') : k'.SameAs k := by
  rw [ClassDecl.SameAs, h]

theorem trans (h : k.SameAs k') (h' : k'.SameAs k'') : k.SameAs k'' := by
  rw [ClassDecl.SameAs, h', h]

theorem rel_refl (a : Option ClassDecl) : Option.Rel SameAs a a := by
  cases a with
  | none => exact .none
  | some k => exact .some rfl

theorem rel_symm (h : Option.Rel SameAs a b) : Option.Rel SameAs b a := by
  cases h with
  | none => exact .none
  | some h => exact .some h.symm

theorem rel_trans (h : Option.Rel SameAs a b) (h' : Option.Rel SameAs b c) :
    Option.Rel SameAs a c := by
  cases h with
  | none => exact h'
  | some h =>
    cases h' with
    | some h' => exact .some (h.trans h')

theorem properties_eq (h : k.SameAs k') :
    k'.properties = k.properties.map fun p => { p with owner := k' } := by
  have hbody : k'.body = k.body := by rw [h]
  unfold ClassDecl.properties
  rw [hbody, List.map_filterMap]
  congr 1
  funext s
  split <;> rfl

end ClassDecl.SameAs

/-! ## Two inquiries side by side -/

namespace Inquiry

variable {α β γ δ : Type}

/-- The answer to an inquiry, given the class that is found for a name and all classes of a name. -/
def resolve (find : String → Option ClassDecl) (all : String → List ClassDecl) :
    Inquiry α → Except Fault α
  | .done a => .ok a
  | .fail f => .error f
  | .find name next => (next (find name)).resolve find all
  | .declarations name next => (next (all name)).resolve find all
  | .note _ next => next.resolve find all

theorem resolve_head (classes : String → List ClassDecl) (q : Inquiry α) :
    q.resolve (fun n => (classes n).head?) classes = q.answer classes := by
  induction q with
  | done a => rfl
  | fail f => rfl
  | find name next ih => exact ih _
  | declarations name next ih => exact ih _
  | note n next ih => exact ih

/-- Two inquiries look up the same names, all of them in a set, and come to related results. -/
inductive Alike (S : Set String) (find find' : String → Option ClassDecl) (R : α → β → Prop) :
    Inquiry α → Inquiry β → Prop
  | done {a : α} {b : β} (h : R a b) : Alike S find find' R (.done a) (.done b)
  | fail (f : Fault) : Alike S find find' R (.fail f) (.fail f)
  | find {name : String} {next : Option ClassDecl → Inquiry α}
      {next' : Option ClassDecl → Inquiry β} (hname : name ∈ S)
      (h : Alike S find find' R (next (find name)) (next' (find' name))) :
      Alike S find find' R (.find name next) (.find name next')
  | note {n n' : Note} {q : Inquiry α} {q' : Inquiry β} (h : Alike S find find' R q q') :
      Alike S find find' R (.note n q) (.note n' q')

namespace Alike

variable {S : Set String} {find find' : String → Option ClassDecl} {R : α → β → Prop}
  {T : γ → δ → Prop} {q : Inquiry α} {q' : Inquiry β}

theorem bind {f : α → Inquiry γ} {f' : β → Inquiry δ} (h : Alike S find find' R q q')
    (hf : ∀ a b, R a b → Alike S find find' T (f a) (f' b)) :
    Alike S find find' T (q >>= f) (q' >>= f') := by
  induction h with
  | done h => exact hf _ _ h
  | fail f => exact .fail f
  | find hname h ih => exact .find hname ih
  | note h ih => exact .note ih

theorem lift (e : Except Fault α) :
    Alike S find find' (fun a b => e = .ok a ∧ a = b) (liftM e) (liftM e) := by
  cases e with
  | error f => exact .fail f
  | ok a => exact .done ⟨rfl, rfl⟩

/-- No inquiry that is like another one lists all classes of a name. -/
theorem resolve_eq {q q' : Inquiry α} (h : Alike S find find' Eq q q')
    (all all' : String → List ClassDecl) : q.resolve find all = q'.resolve find' all' := by
  induction h with
  | done h => exact congrArg Except.ok h
  | fail f => rfl
  | find hname h ih => exact ih
  | note h ih => exact ih

end Alike

end Inquiry

/-- Two fields have the same type and the same value. -/
structure PropertyDecl.SameAs (p p' : PropertyDecl) : Prop where
  typeExpr_eq : p.typeExpr = p'.typeExpr
  value_eq : p.value = p'.value

theorem PropertyDecl.SameAs.fieldType_eq {p p' : PropertyDecl} (h : p.SameAs p') :
    p.fieldType = p'.fieldType := by
  unfold fieldType
  rw [h.typeExpr_eq, h.value_eq]

namespace PayloadRules

open Inquiry

variable {r : PayloadRules} {S : Set String} {find find' : String → Option ClassDecl}

/-- Classes that are found under one key are the same. -/
def TellsApart (find : String → Option ClassDecl) : Prop :=
  ∀ {n m k l}, find n = some k → find m = some l → k.key = l.key → k = l

/-- Two ways to look up classes find declarations that say the same for the names of a set, and the
set is closed under what they refer to.  Keys tell apart what each of them finds. -/
structure Twins (r : PayloadRules) (S : Set String) (find find' : String → Option ClassDecl) :
    Prop where
  same : ∀ n ∈ S, Option.Rel ClassDecl.SameAs (find n) (find' n)
  named : ∀ n k, find n = some k → k.name = n
  keyed : TellsApart find
  keyed' : TellsApart find'
  closed : ∀ n ∈ S, ∀ k, find n = some k → r.ClosedAt S k

/-- Two classes are what the two ways find for one name. -/
def Pair (S : Set String) (find find' : String → Option ClassDecl) (k k' : ClassDecl) : Prop :=
  ∃ n ∈ S, find n = some k ∧ find' n = some k'

/-- The same classes were visited, in the same order. -/
def SameSeen (S : Set String) (find find' : String → Option ClassDecl) :
    Visited → Visited → Prop :=
  List.Forall₂ fun a b => ∃ k k', Pair S find find' k k' ∧ a = k.key ∧ b = k'.key

/-- The same fields in the same order, all of them with references in the set. -/
def SameFields (S : Set String) : Ordered PropertyDecl → Ordered PropertyDecl → Prop :=
  List.Forall₂ fun e e' => e.1 = e'.1 ∧ e.2.SameAs e'.2 ∧
    ∀ t, e.2.fieldType = .ok t → ∀ n, t.Refers n → n ∈ S

/-- Two visits come to related results, and have visited the same classes. -/
def SameVisit {α β : Type} (S : Set String) (find find' : String → Option ClassDecl)
    (R : α → β → Prop) (x : α × Visited) (y : β × Visited) : Prop :=
  R x.1 y.1 ∧ SameSeen S find find' x.2 y.2

section Classes

variable (h : Twins r S find find') {k k' l l' : ClassDecl}
include h

/-- A name of the set is found on both sides, as declarations that correspond, or on neither. -/
theorem Twins.rel_pair {n : String} (hn : n ∈ S) :
    Option.Rel (Pair S find find') (find n) (find' n) := by
  have hsame := h.same n hn
  cases hk : find n with
  | none =>
    rw [hk] at hsame
    cases hk' : find' n with
    | none => exact .none
    | some k' =>
      rw [hk'] at hsame
      cases hsame
  | some k =>
    rw [hk] at hsame
    cases hk' : find' n with
    | none =>
      rw [hk'] at hsame
      cases hsame
    | some k' => exact .some ⟨n, hn, hk, hk'⟩

theorem Pair.sameAs (hk : Pair S find find' k k') : k.SameAs k' := by
  obtain ⟨n, hn, hfind, hfind'⟩ := hk
  have hsame := h.same n hn
  rw [hfind, hfind'] at hsame
  cases hsame with
  | some hsame => exact hsame

/-- Two pairs have one key in common if and only if they are found for one name. -/
theorem Pair.key_eq_iff (hk : Pair S find find' k k') (hl : Pair S find find' l l') :
    k.key = l.key ↔ k'.key = l'.key := by
  have hname : k'.name = k.name := by rw [hk.sameAs h]
  have hname' : l'.name = l.name := by rw [hl.sameAs h]
  obtain ⟨n, hn, hfind, hfind'⟩ := hk
  obtain ⟨m, hm, hfindl, hfindl'⟩ := hl
  have hkn := h.named n k hfind
  have hlm := h.named m l hfindl
  constructor
  · intro hkey
    have hnm : n = m := by rw [← hkn, ← hlm, h.keyed hfind hfindl hkey]
    subst hnm
    rw [hfind'] at hfindl'
    cases hfindl'
    rfl
  · intro hkey
    have hnm : n = m := by
      rw [← hkn, ← hlm, ← hname, ← hname', h.keyed' hfind' hfindl' hkey]
    subst hnm
    rw [hfind] at hfindl
    cases hfindl
    rfl

theorem SameSeen.contains_eq {seen seen' : Visited} (hseen : SameSeen S find find' seen seen')
    (hk : Pair S find find' k k') : seen.contains k.key = seen'.contains k'.key := by
  induction hseen with
  | nil => rfl
  | cons hab _ ih =>
    obtain ⟨l, l', hl, rfl, rfl⟩ := hab
    rw [List.contains_cons, List.contains_cons, ih]
    congr 1
    rw [Bool.eq_iff_iff, beq_iff_eq, beq_iff_eq]
    exact hk.key_eq_iff h hl

/-! ## Bases -/

theorem alike_findClass {n : String} (hn : n ∈ S) :
    Alike S find find' (Option.Rel (Pair S find find')) (Inquiry.findClass n)
      (Inquiry.findClass n) :=
  .find hn (.done (h.rel_pair hn))

/-- Corresponding classes have corresponding bases. -/
theorem alike_findBases (hk : Pair S find find' k k') {names : List String}
    (hnames : ∀ n ∈ names, n ∈ S) :
    Alike S find find' (List.Forall₂ (Pair S find find')) (findBases k names)
      (findBases k' names) := by
  induction names with
  | nil => exact .done .nil
  | cons n names ih =>
    have hrest := ih fun m hm => hnames m (List.mem_cons_of_mem _ hm)
    refine (alike_findClass h (hnames n List.mem_cons_self)).bind fun base base' hbase => ?_
    refine hrest.bind fun rest rest' hrest => ?_
    cases hbase with
    | none => exact .done hrest
    | @some b b' hb =>
      refine .done ?_
      by_cases hkey : b.key = k.key
      · rw [if_pos hkey, if_pos ((hb.key_eq_iff h hk).1 hkey)]
        exact hrest
      · rw [if_neg hkey, if_neg fun hkey' => hkey ((hb.key_eq_iff h hk).2 hkey')]
        exact .cons hb hrest

theorem Pair.closedAt (hk : Pair S find find' k k') : r.ClosedAt S k := by
  obtain ⟨n, hn, hfind, -⟩ := hk
  exact h.closed n hn k hfind

theorem Pair.baseNames_eq (hk : Pair S find find' k k') : k'.baseNames = k.baseNames := by
  rw [hk.sameAs h]
  rfl

theorem alike_baseNames (hk : Pair S find find' k k') :
    Alike S find find' (fun a b => k.baseNames = .ok a ∧ a = b) (liftM k.baseNames)
      (liftM k'.baseNames) := by
  rw [hk.baseNames_eq h]
  exact .lift _

theorem alike_projectBases (hk : Pair S find find' k k') :
    Alike S find find' (List.Forall₂ (Pair S find find')) (r.projectBases k)
      (r.projectBases k') := by
  refine (alike_baseNames h hk).bind fun names names' hnames => ?_
  obtain ⟨hnames, rfl⟩ := hnames
  refine alike_findBases h hk fun n hn => ?_
  obtain ⟨hmem, hlooked⟩ := List.mem_filter.1 hn
  simp only [Bool.not_eq_true', Bool.or_eq_false_iff, List.contains_eq_mem,
    decide_eq_false_iff_not] at hlooked
  exact (hk.closedAt h).bases names hnames n hmem hlooked.1 hlooked.2

/-- Two visits are alike on the classes of every pair. -/
def AlikeVisits {α : Type} (S : Set String) (find find' : String → Option ClassDecl)
    (R : α → α → Prop) (visit visit' : Visit α) : Prop :=
  ∀ k k' seen seen', Pair S find find' k k' → SameSeen S find find' seen seen' →
    Alike S find find' (SameVisit S find find' R) (visit k seen) (visit' k' seen')

omit h in
theorem alike_anyVisited {check check' : Visit Bool}
    (hcheck : AlikeVisits S find find' Eq check check') {ks ks' : List ClassDecl}
    (hks : List.Forall₂ (Pair S find find') ks ks') {seen seen' : Visited}
    (hseen : SameSeen S find find' seen seen') :
    Alike S find find' (SameVisit S find find' Eq) (anyVisited check ks seen)
      (anyVisited check' ks' seen') := by
  induction hks generalizing seen seen' with
  | nil => exact .done ⟨rfl, hseen⟩
  | cons hk _ ih =>
    refine (hcheck _ _ _ _ hk hseen).bind fun x y hxy => ?_
    obtain ⟨found, seen⟩ := x
    obtain ⟨found', seen'⟩ := y
    obtain ⟨rfl, hseen⟩ := hxy
    cases found with
    | true => exact .done ⟨rfl, hseen⟩
    | false => exact ih hseen

/-- The search for a base asks for names of the set only, with the same result on both sides. -/
theorem alikeVisits_hasBaseFrom (names : List String) (limit : Nat) :
    AlikeVisits S find find' Eq (r.hasBaseFrom names limit) (r.hasBaseFrom names limit) := by
  induction limit with
  | zero => exact fun k k' seen seen' hk hseen => .done ⟨rfl, hseen⟩
  | succ limit ih =>
    intro k k' seen seen' hk hseen
    simp only [hasBaseFrom]
    rw [← hseen.contains_eq h hk]
    by_cases hvisited : seen.contains k.key = true
    · rw [if_pos hvisited, if_pos hvisited]
      exact .done ⟨rfl, hseen⟩
    · rw [if_neg hvisited, if_neg hvisited]
      have hseen : SameSeen S find find' (k.key :: seen) (k'.key :: seen') :=
        .cons ⟨k, k', hk, rfl, rfl⟩ hseen
      refine (alike_baseNames h hk).bind fun bases bases' hbases => ?_
      obtain ⟨-, rfl⟩ := hbases
      by_cases hany : bases.any names.contains = true
      · rw [if_pos hany, if_pos hany]
        exact .done ⟨rfl, hseen⟩
      · rw [if_neg hany, if_neg hany]
        exact (alike_projectBases h hk).bind fun ks ks' hks => alike_anyVisited ih hks hseen

theorem alike_hasBase (limit : Nat) (names : List String) (hk : Pair S find find' k k') :
    Alike S find find' Eq (r.hasBase limit names k) (r.hasBase limit names k') :=
  (alikeVisits_hasBaseFrom h names limit _ _ _ _ hk .nil).bind fun _ _ hxy => .done hxy.1

theorem Pair.isStructured_eq (hk : Pair S find find' k k') :
    (k'.decoratorNames.contains "dataclass" || !k'.properties.isEmpty) =
      (k.decoratorNames.contains "dataclass" || !k.properties.isEmpty) := by
  have hdecorators : k'.decoratorNames = k.decoratorNames := by
    rw [hk.sameAs h]
    rfl
  rw [hdecorators, (hk.sameAs h).properties_eq, List.isEmpty_map]

theorem alike_isStructured (limit : Nat) (hk : Pair S find find' k k') :
    Alike S find find' Eq (r.isStructured limit k) (r.isStructured limit k') := by
  refine (alike_hasBase h limit _ hk).bind fun isEnum isEnum' hEnum => ?_
  subst hEnum
  cases isEnum with
  | true => exact .done rfl
  | false =>
    simp only [Bool.false_eq_true, if_false]
    rw [hk.isStructured_eq h]
    by_cases hfields : (k.decoratorNames.contains "dataclass" || !k.properties.isEmpty) = true
    · rw [if_pos hfields, if_pos hfields]
      exact .done rfl
    · rw [if_neg hfields, if_neg hfields]
      exact alike_hasBase h limit _ hk

theorem alike_enumValue? (limit : Nat) {target target' : Option ClassDecl}
    (htarget : Option.Rel (Pair S find find') target target') :
    Alike S find find' Eq (r.enumValue? limit target) (r.enumValue? limit target') := by
  cases htarget with
  | none => exact .done rfl
  | @some k k' hk =>
    refine (alike_hasBase h limit _ hk).bind fun isEnum isEnum' hEnum => ?_
    subst hEnum
    cases isEnum with
    | false => exact .done rfl
    | true =>
      refine (alike_hasBase h limit _ hk).bind fun isText isText' hText => ?_
      subst hText
      rw [hk.sameAs h]
      exact .done rfl

/-! ## Fields -/

omit h in
theorem SameFields.put {t t' : Ordered PropertyDecl} (ht : SameFields S t t') {name : String}
    {p p' : PropertyDecl} (hp : p.SameAs p')
    (hrefers : ∀ t, p.fieldType = .ok t → ∀ n, t.Refers n → n ∈ S) :
    SameFields S (Ordered.put name p t) (Ordered.put name p' t') := by
  induction ht with
  | nil => exact .cons ⟨rfl, hp, hrefers⟩ .nil
  | @cons e e' t t' he ht ih =>
    obtain ⟨n, q⟩ := e
    obtain ⟨n', q'⟩ := e'
    obtain ⟨rfl, hq⟩ := he
    simp only [Ordered.put]
    by_cases hn : (n == name) = true
    · rw [if_pos hn, if_pos hn]
      exact .cons ⟨rfl, hp, hrefers⟩ ht
    · rw [if_neg hn, if_neg hn]
      exact .cons ⟨rfl, hq⟩ ih

omit h in
theorem SameFields.overlay {base base' upper upper' : Ordered PropertyDecl}
    (hbase : SameFields S base base') (hupper : SameFields S upper upper') :
    SameFields S (base.overlay upper) (base'.overlay upper') := by
  unfold Ordered.overlay
  induction hupper generalizing base base' with
  | nil => exact hbase
  | @cons e e' _ _ he _ ih =>
    obtain ⟨n, p⟩ := e
    obtain ⟨n', p'⟩ := e'
    obtain ⟨rfl, hp, hrefers⟩ := he
    exact ih (hbase.put hp hrefers)

theorem Pair.sameFields (hk : Pair S find find' k k') :
    SameFields S (k.properties.map fun p => (p.name, p))
      (k'.properties.map fun p => (p.name, p)) := by
  rw [(hk.sameAs h).properties_eq, List.map_map]
  refine List.forall₂_map_left_iff.2 (List.forall₂_map_right_iff.2 ?_)
  refine List.forall₂_same.2 fun p hp => ⟨rfl, ⟨rfl, rfl⟩, ?_⟩
  exact (hk.closedAt h).fields p hp

omit h in
theorem alike_mergeVisited {fields fields' : Visit (Ordered PropertyDecl)}
    (hfields : AlikeVisits S find find' (SameFields S) fields fields') {ks ks' : List ClassDecl}
    (hks : List.Forall₂ (Pair S find find') ks ks') {done done' : Ordered PropertyDecl}
    (hdone : SameFields S done done') {seen seen' : Visited}
    (hseen : SameSeen S find find' seen seen') :
    Alike S find find' (SameVisit S find find' (SameFields S)) (mergeVisited fields ks done seen)
      (mergeVisited fields' ks' done' seen') := by
  induction hks generalizing done done' seen seen' with
  | nil => exact .done ⟨hdone, hseen⟩
  | cons hk _ ih =>
    exact (hfields _ _ _ _ hk hseen).bind fun x y hxy => ih (hdone.overlay hxy.1) hxy.2

/-- The search for fields asks for names of the set only, with the same fields on both sides. -/
theorem alikeVisits_fieldsFrom (limit : Nat) :
    AlikeVisits S find find' (SameFields S) (r.fieldsFrom limit) (r.fieldsFrom limit) := by
  induction limit with
  | zero => exact fun k k' seen seen' hk hseen => .done ⟨.nil, hseen⟩
  | succ limit ih =>
    intro k k' seen seen' hk hseen
    simp only [fieldsFrom]
    rw [← hseen.contains_eq h hk]
    by_cases hvisited : seen.contains k.key = true
    · rw [if_pos hvisited, if_pos hvisited]
      exact .done ⟨.nil, hseen⟩
    · rw [if_neg hvisited, if_neg hvisited]
      have hseen : SameSeen S find find' (k.key :: seen) (k'.key :: seen') :=
        .cons ⟨k, k', hk, rfl, rfl⟩ hseen
      refine (alike_projectBases h hk).bind fun ks ks' hks => ?_
      refine (alike_mergeVisited ih hks .nil hseen).bind fun x y hxy => ?_
      exact .done ⟨hxy.1.overlay (hk.sameFields h), hxy.2⟩

theorem alike_fields (limit : Nat) (hk : Pair S find find' k k') :
    Alike S find find' (SameFields S) (r.fields limit k) (r.fields limit k') :=
  (alikeVisits_fieldsFrom h limit _ _ _ _ hk .nil).bind fun _ _ hxy => .done hxy.1

theorem alike_referenced {f : FieldFacts}
    (hf : ∀ n, f.classRef = some n → n.isEmpty = false → n ∈ S) :
    Alike S find find' (Option.Rel (Pair S find find')) (referenced f) (referenced f) := by
  unfold referenced
  split
  · rename_i n hn
    by_cases hempty : n.isEmpty = true
    · rw [if_pos hempty]
      exact .done .none
    · rw [if_neg hempty]
      exact alike_findClass h (hf n hn (Bool.eq_false_iff.2 hempty))
  · exact .done .none

end Classes

/-! ## Payloads -/

section Payloads

variable {α : Type} {a : Assembly α} {limit : Nat} {nested nested' : ClassDecl → Inquiry α}

/-- Two ways to build nested classes are alike on the classes of every pair. -/
def AlikeNested (S : Set String) (find find' : String → Option ClassDecl)
    (nested nested' : ClassDecl → Inquiry α) : Prop :=
  ∀ k k', Pair S find find' k k' → Alike S find find' Eq (nested k) (nested' k')

theorem alike_times {q q' : Inquiry α} (hq : Alike S find find' Eq q q') (n : Nat) :
    Alike S find find' Eq (times q n) (times q' n) := by
  induction n with
  | zero => exact .done rfl
  | succ n ih =>
    refine hq.bind fun v v' hv => ih.bind fun vs vs' hvs => ?_
    rw [hv, hvs]
    exact .done rfl

theorem alike_classPart (h : Twins r S find find')
    (hnested : AlikeNested S find find' nested nested') (f : FieldFacts)
    {target target' : Option ClassDecl} (htarget : Option.Rel (Pair S find find') target target') :
    Alike S find find' Eq (r.classPart a limit nested f target)
      (r.classPart a limit nested' f target') := by
  cases htarget with
  | none => exact .done rfl
  | @some k k' hk =>
    refine (alike_isStructured h limit hk).bind fun isStructured isStructured' hsame => ?_
    subst hsame
    cases isStructured with
    | true => exact hnested k k' hk
    | false => exact .done rfl

mutual

/-- A part of a payload is the same on both sides. -/
theorem alike_partOf (h : Twins r S find find')
    (hnested : AlikeNested S find find' nested nested') :
    ∀ t : FieldType, (∀ n, t.Refers n → n ∈ S) →
    Alike S find find' Eq (r.partOf a limit nested t) (r.partOf a limit nested' t)
  | .mk f element fixed, ht => by
    unfold partOf
    refine (Alike.lift (settled? f)).bind fun value value' hvalue => ?_
    obtain ⟨-, rfl⟩ := hvalue
    cases value with
    | some v => exact .done rfl
    | none =>
      refine (alike_referenced h fun n hn hne => ht n (.itself hn hne)).bind
        fun target target' htarget => ?_
      refine (alike_enumValue? h limit htarget).bind fun value value' hvalue => ?_
      subst hvalue
      cases value with
      | some v => exact .done rfl
      | none =>
        by_cases harray : f.isArray = true
        · simp only [if_pos harray]
          cases fixed with
          | some es =>
            refine (alike_elementParts h hnested es fun e he n hn => ht n (.fixed he hn)).bind
              fun vs vs' hvs => ?_
            rw [hvs]
            exact .done rfl
          | none =>
            refine (alike_times (alike_someElement h hnested element fun e he n hn => ?_) _).bind
              fun vs vs' hvs => ?_
            · subst he
              exact ht n (.element hn)
            · rw [hvs]
              exact .done rfl
        · simp only [if_neg harray]
          exact alike_classPart h hnested f htarget

theorem alike_someElement (h : Twins r S find find')
    (hnested : AlikeNested S find find' nested nested') :
    ∀ element : Option ElementType,
    (∀ e, element = some e → ∀ n, e.Refers n → n ∈ S) →
    Alike S find find' Eq (r.someElement a limit nested element)
      (r.someElement a limit nested' element)
  | none, _ => .done rfl
  | some e, he => alike_elementPart h hnested e (he e rfl)

theorem alike_elementPart (h : Twins r S find find')
    (hnested : AlikeNested S find find' nested nested') :
    ∀ e : ElementType, (∀ n, e.Refers n → n ∈ S) →
    Alike S find find' Eq (r.elementPart a limit nested e) (r.elementPart a limit nested' e)
  | .mk e (.ok t), he => by
    refine (Alike.lift e.printed).bind fun _ _ _ => ?_
    refine (Alike.lift t.facts.checkLength).bind fun _ _ _ => ?_
    exact alike_partOf h hnested t fun n hn => he n (.known hn)
  | .mk e (.error f), _ => (Alike.lift e.printed).bind fun _ _ _ => .fail f

theorem alike_elementParts (h : Twins r S find find')
    (hnested : AlikeNested S find find' nested nested') :
    ∀ es : List ElementType, (∀ e ∈ es, ∀ n, e.Refers n → n ∈ S) →
    Alike S find find' Eq (r.elementParts a limit nested es) (r.elementParts a limit nested' es)
  | [], _ => .done rfl
  | e :: es, hes => by
    rw [elementParts, elementParts]
    refine (alike_elementPart h hnested e (hes e List.mem_cons_self)).bind fun v v' hv => ?_
    refine (alike_elementParts h hnested es fun e he => hes e (List.mem_cons_of_mem _ he)).bind
      fun vs vs' hvs => ?_
    rw [hv, hvs]
    exact .done rfl

end

/-- The parts for the fields of a class are the same on both sides. -/
theorem alike_partsOf (h : Twins r S find find')
    (hnested : AlikeNested S find find' nested nested') (total : Bool)
    {fields fields' : Ordered PropertyDecl}
    (hfields : SameFields S fields fields') :
    Alike S find find' Eq (r.partsOf a limit nested total fields)
      (r.partsOf a limit nested' total fields') := by
  induction hfields with
  | nil => exact .done rfl
  | @cons e e' fields fields' he _ ih =>
    obtain ⟨name, p⟩ := e
    obtain ⟨name', p'⟩ := e'
    obtain ⟨rfl, hsame, hrefers⟩ := he
    simp only [partsOf] at hsame hrefers ⊢
    by_cases hname : Text.startsWith name "_" = true
    · rw [if_pos hname, if_pos hname]
      exact ih
    · rw [if_neg hname, if_neg hname, ← hsame.fieldType_eq, ← hsame.typeExpr_eq]
      refine (Alike.lift p.typeExpr.printed).bind fun _ _ _ => ?_
      refine (Alike.lift p.fieldType).bind fun t t' ht => ?_
      obtain ⟨ht, rfl⟩ := ht
      by_cases hrequired : isRequired total t.facts = true
      · rw [if_pos hrequired, if_pos hrequired]
        refine (Alike.lift t.facts.checkLength).bind fun _ _ _ => ?_
        refine (alike_partOf h hnested t (hrefers t ht)).bind fun v v' hv => ?_
        refine ih.bind fun vs vs' hvs => ?_
        rw [hv, hvs]
        exact .done rfl
      · rw [if_neg hrequired, if_neg hrequired]
        exact ih

theorem alike_recordWith (h : Twins r S find find')
    (hnested : AlikeNested S find find' nested nested')
    {k k' : ClassDecl} (hk : Pair S find find' k k') :
    Alike S find find' Eq (r.recordWith a limit nested k) (r.recordWith a limit nested' k') := by
  have htotal : isTotal k' = isTotal k := by
    rw [hk.sameAs h]
    rfl
  refine (alike_fields h limit hk).bind fun fields fields' hfields => ?_
  rw [htotal]
  refine (alike_partsOf h hnested (isTotal k) hfields).bind fun parts parts' hparts => ?_
  rw [hparts]
  exact .done rfl

theorem alikeNested_recordAt (h : Twins r S find find') (depth maxDepth : Int) :
    AlikeNested S find find' (r.recordAt a limit depth maxDepth)
      (r.recordAt a limit depth maxDepth) := by
  intro k k' hk
  rw [recordAt, recordAt]
  refine alike_recordWith h (fun l l' hl => ?_) hk
  by_cases hdepth : maxDepth ≤ depth
  · rw [if_pos hdepth, if_pos hdepth]
    exact .done rfl
  · rw [if_neg hdepth, if_neg hdepth]
    exact alikeNested_recordAt h (depth + 1) maxDepth l l' hl
termination_by (maxDepth - depth).toNat
decreasing_by omega

end Payloads

end PayloadRules

open PayloadRules

/-- The payload of a class depends on the declarations of a closed set of names and on no others. -/
theorem alike_synthesize {r : PayloadRules} {S : Set String}
    {find find' : String → Option ClassDecl} (h : Twins r S find find') (limit : Nat)
    {className : String} (hname : className ∈ S) (maxDepth : Option Int) :
    Inquiry.Alike S find find' Eq (synthesize r limit className maxDepth)
      (synthesize r limit className maxDepth) := by
  refine (alike_findClass h hname).bind fun target target' htarget => ?_
  cases htarget with
  | none => exact .note (.done rfl)
  | @some k k' hk =>
    refine (alikeNested_recordAt h 0 _ k k' hk).bind fun v v' hv => ?_
    rw [hv]
    exact .done rfl

end RouteLens
