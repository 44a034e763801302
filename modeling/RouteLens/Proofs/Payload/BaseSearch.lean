import RouteLens.Proofs.Payload.Ancestry

/-!
# Searching the bases of a class

A class is an enumeration, or has fields, because of the names that it lists as bases, or that a
class lists that it inherits from.  The search for such a name stops as soon as it has found one; a
class that is met again counts as one that lists none, also while its own bases are still being
searched.  It finds a name exactly if a class that is reached lists one (`hasBase_iff_reaches`), so
that its outcome does not depend on the order in which bases are listed.
-/

namespace RouteLens

section

variable {edition : Nat} [CharacterNames edition]

/-- A class lists one of some names as a base. -/
def ClassDecl.Lists (c : ClassDecl) (names : List String) : Prop :=
  ∃ bases, c.baseNames = .ok bases ∧ ∃ n ∈ bases, n ∈ names

namespace PayloadRules

variable {classes : String → List ClassDecl} {r : PayloadRules} {names : List String}
  {c k : ClassDecl} {cs : List ClassDecl} {seen seen' : Visited}

/-! ## The outcome of a search -/

/-- The outcome of a search from some classes: it was found that a class in their reach lists a
name, or all of them were walked and none was finished that lists one. -/
inductive Searched (classes : String → List ClassDecl) (r : PayloadRules) (names : List String)
    (seen : Visited) (cs : List ClassDecl) : Bool × Visited → Prop
  | found {s x : ClassDecl} {seen' : Visited} (hs : s ∈ cs) (hx : Reaches classes r s x)
      (hlists : x.Lists names) : Searched classes r names seen cs (true, seen')
  | missed {os : List ClassDecl} {seen' : Visited} (h : Tours classes r seen cs os seen')
      (hlists : ∀ x ∈ os, ¬ x.Lists names) : Searched classes r names seen cs (false, seen')

/-- A search over several classes is one over each of them in turn. -/
theorem meets_anyVisited {keys : Finset (Path × Nat)} {n : Nat} {S : Fault → Prop}
    {check : Visit Bool}
    (hcheck : ∀ c ∈ cs, ∀ seen, unvisited keys seen ≤ n →
      Meets S (Searched classes r names seen [c]) ((check c seen).answer classes))
    (hseen : unvisited keys seen ≤ n) :
    Meets S (Searched classes r names seen cs) ((anyVisited check cs seen).answer classes) := by
  induction cs generalizing seen with
  | nil => exact .ok (.missed .nil (List.forall_mem_nil _))
  | cons c cs ih =>
    simp only [anyVisited, Inquiry.answer_seq]
    refine (hcheck c List.mem_cons_self seen hseen).bind fun out hout => ?_
    cases hout with
    | found hs hx hlists =>
      exact .ok (.found (List.mem_singleton.1 hs ▸ List.mem_cons_self) hx hlists)
    | missed hfirst hnone =>
      have hrest := ih (fun c hc => hcheck c (List.mem_cons_of_mem _ hc))
        ((unvisited_le_of_subset hfirst.subset).trans hseen)
      refine hrest.mono (fun _ hf => hf) fun out hout => ?_
      cases hout with
      | found hs hx hlists => exact .found (List.mem_cons_of_mem _ hs) hx hlists
      | missed hrest hnone' =>
        refine .missed (hfirst.cons hrest) fun x hx => ?_
        exact (List.mem_append.1 hx).elim (hnone x) (hnone' x)

/-- The search for a base finds a class that lists it, or walks all classes that it had not
visited. -/
theorem meets_hasBaseFrom {keys : Finset (Path × Nat)} (hkeys : Covers keys classes)
    (limit : Nat) (hc : c.key ∈ keys) (hseen : unvisited keys seen ≤ limit) :
    Meets (BasesFail classes r c) (Searched classes r names seen [c])
      ((r.hasBaseFrom names limit c seen).answer classes) := by
  refine visit_induction (P := fun limit c seen => Meets (BasesFail classes r c)
    (Searched classes r names seen [c]) ((r.hasBaseFrom names limit c seen).answer classes))
    (fun {limit c seen} hmem => ?_) (fun {limit c seen} hmem hless ih => ?_) limit c seen hc hseen
  · -- a marked class counts as one that lists nothing: the walk that marked it answers for it
    rw [hasBaseFrom_of_mem hmem]
    exact .ok (.missed (.pass hmem .nil) (List.forall_mem_nil _))
  · rw [hasBaseFrom, if_neg (by simpa using hmem)]
    simp only [Inquiry.answer_seq, Inquiry.answer_lift]
    cases hbases : c.baseNames with
    | error f => exact .error ⟨c, .refl, hbases⟩
    | ok bases =>
      simp only [ok_bind]
      by_cases hany : bases.any names.contains = true
      · rw [if_pos hany]
        obtain ⟨n, hn, hname⟩ := List.any_eq_true.1 hany
        exact .ok (.found List.mem_cons_self .refl ⟨bases, hbases, n, hn, by simpa using hname⟩)
      · rw [if_neg hany, Inquiry.answer_seq]
        have hnone : ¬ c.Lists names := by
          rintro ⟨bases', hbases', n, hn, hname⟩
          cases hbases.symm.trans hbases'
          exact hany (List.any_eq_true.2 ⟨n, hn, by simpa using hname⟩)
        cases hbs : (r.projectBases c).answer classes with
        | error f => exact .error ⟨c, .refl, baseNames_of_projectBases_error hbs⟩
        | ok bs =>
          have hbase (b : ClassDecl) (hb : b ∈ bs) : IsBase classes r c b := ⟨bs, hbs, hb⟩
          have hwalk : Meets (BasesFail classes r c) (Searched classes r names (c.key :: seen) bs)
              ((anyVisited (r.hasBaseFrom names limit) bs (c.key :: seen)).answer classes) := by
            refine meets_anyVisited (fun b hb seen' hseen' => ?_) hless
            exact (ih b seen' (hkeys b (hbase b hb).inReach) hseen').mono
              (fun f hf => hf.of_reaches (.single (hbase b hb))) fun _ h => h
          refine hwalk.mono (fun _ hf => hf) fun out hout => ?_
          cases hout with
          | found hs hx hlists => exact .found List.mem_cons_self (.head (hbase _ hs) hx) hlists
          | missed h hlists =>
            refine .missed (.single hmem hbs h) fun x hx => ?_
            rcases List.mem_append.1 hx with hx | hx
            · exact hlists x hx
            · exact List.mem_singleton.1 hx ▸ hnone

/-- A search from one class finds a name exactly if a class that is reached lists one.  If it finds
none, it has read all bases. -/
theorem meets_hasBase {limit : Nat} (hlimit : SufficesWith classes k limit)
    (htell : KeysTellApart classes r k) :
    Meets (BasesFail classes r k)
      (fun found => (found = true ↔ ∃ c, Reaches classes r k c ∧ c.Lists names) ∧
        (found = true ∨ ∀ f, ¬ BasesFail classes r k f))
      ((r.hasBase limit names k).answer classes) := by
  obtain ⟨keys, hkeys, hk, hcard⟩ := hlimit
  simp only [hasBase, Inquiry.answer_seq]
  refine (meets_hasBaseFrom hkeys limit hk (unvisited_nil.trans_le hcard)).bind fun out hout => ?_
  cases hout with
  | found hs hx hlists =>
    exact .ok ⟨⟨fun _ => ⟨_, List.mem_singleton.1 hs ▸ hx, hlists⟩, fun _ => rfl⟩, .inl rfl⟩
  | missed h hlists =>
    refine .ok ⟨⟨fun h => absurd h Bool.false_ne_true, fun hreached => ?_⟩,
      .inr (h.not_basesFail htell)⟩
    obtain ⟨c, hc, hlist⟩ := hreached
    exact (hlists c ((h.mem_iff_reaches htell).2 hc) hlist).elim

/-- A class is structured if it is no enumeration and is a data class, has fields, or inherits from
a schema. -/
theorem meets_isStructured {limit : Nat} (hlimit : SufficesWith classes k limit)
    (htell : KeysTellApart classes r k) :
    Meets (BasesFail classes r k)
      (fun found => found = true ↔
        ¬ (∃ c, Reaches classes r k c ∧ c.Lists r.enumBases) ∧
          ("dataclass" ∈ k.decoratorNames ∨ k.properties ≠ [] ∨
            ∃ c, Reaches classes r k c ∧ c.Lists r.schemaBases))
      ((r.isStructured limit k).answer classes) := by
  simp only [isStructured, isEnum, Inquiry.answer_seq]
  refine (meets_hasBase hlimit htell).bind fun isEnum hisEnum => ?_
  have henum := hisEnum.1
  cases isEnum with
  | true =>
    exact .ok ⟨fun h => absurd h Bool.false_ne_true, fun h => (h.1 (henum.1 rfl)).elim⟩
  | false =>
    have hnot : ¬ ∃ c, Reaches classes r k c ∧ c.Lists r.enumBases := fun h =>
      Bool.false_ne_true (henum.2 h)
    by_cases hfields : (k.decoratorNames.contains "dataclass" || !k.properties.isEmpty) = true
    · simp only [Bool.false_eq_true, if_false, if_pos hfields]
      refine .ok ⟨fun _ => ⟨hnot, ?_⟩, fun _ => rfl⟩
      simp only [Bool.or_eq_true, List.contains_iff_mem, Bool.not_eq_true',
        List.isEmpty_eq_false_iff] at hfields
      exact hfields.imp_right .inl
    · simp only [Bool.false_eq_true, if_false, if_neg hfields]
      refine (meets_hasBase hlimit htell).mono (fun _ hf => hf) fun found hfound => ?_
      simp only [Bool.or_eq_true, List.contains_iff_mem, Bool.not_eq_true',
        List.isEmpty_eq_false_iff, not_or] at hfields
      rw [hfound.1]
      exact ⟨fun h => ⟨hnot, .inr (.inr h)⟩, fun h =>
        (h.2.resolve_left hfields.1).resolve_left hfields.2⟩

end PayloadRules

/-! ## Bases in another order -/

section Names

variable {α β : Type}

/-- A list is mapped if each of its members is. -/
theorem mapM_eq_ok_iff {f : α → Except Fault β} {as : List α} {bs : List β} :
    as.mapM f = .ok bs ↔ as.map f = bs.map .ok := by
  induction as generalizing bs with
  | nil => cases bs <;> simp
  | cons a as ih =>
    rw [List.mapM_cons, bind_eq_ok_iff]
    constructor
    · rintro ⟨b, hb, h⟩
      obtain ⟨bs', hbs', h⟩ := bind_eq_ok_iff.1 h
      cases h
      rw [List.map_cons, List.map_cons, hb, ih.1 hbs']
    · intro h
      cases bs with
      | nil => cases h
      | cons b bs =>
        obtain ⟨hb, hbs⟩ := List.cons.inj h
        exact ⟨b, hb, bind_eq_ok_iff.2 ⟨bs, ih.2 hbs, rfl⟩⟩

variable {c : ClassDecl} {bases : List String}

theorem ClassDecl.baseNames_eq_ok_iff : c.baseNames = .ok bases ↔
    ∃ names : List (Option String),
      c.bases.map Expr.typeName = names.map .ok ∧ names.filterMap id = bases := by
  unfold baseNames
  rw [bind_eq_ok_iff]
  simp only [mapM_eq_ok_iff, pure_eq_ok, Except.ok.injEq]

end Names

/-- Two declarations of one class that list its bases in different orders; else they agree in what
tells whether a class is an enumeration or has fields. -/
structure ClassDecl.Rearranged (c c' : ClassDecl) : Prop where
  key_eq : c'.key = c.key
  name_eq : c'.name = c.name
  bases_perm : (c'.bases.map Expr.typeName).Perm (c.bases.map Expr.typeName)
  decorators_eq : c'.decoratorNames = c.decoratorNames
  fields_eq : c'.properties.map PropertyDecl.name = c.properties.map PropertyDecl.name

instance (c c' : ClassDecl) : Decidable (c.Rearranged c') :=
  decidable_of_iff
    (c'.key = c.key ∧ c'.name = c.name ∧
      (c'.bases.map Expr.typeName).Perm (c.bases.map Expr.typeName) ∧
      c'.decoratorNames = c.decoratorNames ∧
      c'.properties.map PropertyDecl.name = c.properties.map PropertyDecl.name)
    ⟨fun h => ⟨h.1, h.2.1, h.2.2.1, h.2.2.2.1, h.2.2.2.2⟩,
      fun h => ⟨h.key_eq, h.name_eq, h.bases_perm, h.decorators_eq, h.fields_eq⟩⟩

/-- Two tables find classes for the same names, with bases in different orders. -/
def ClassTable.Rearranged (T T' : ClassTable) : Prop :=
  ∀ n, Option.Rel ClassDecl.Rearranged (T.classes n).head? (T'.classes n).head?

namespace ClassDecl.Rearranged

variable {c c' : ClassDecl} {bases : List String}

theorem symm (h : c.Rearranged c') : c'.Rearranged c :=
  ⟨h.key_eq.symm, h.name_eq.symm, h.bases_perm.symm, h.decorators_eq.symm, h.fields_eq.symm⟩

theorem exists_baseNames (h : c.Rearranged c') (hbases : c.baseNames = .ok bases) :
    ∃ bases', c'.baseNames = .ok bases' ∧ bases'.Perm bases := by
  obtain ⟨names, hnames, rfl⟩ := baseNames_eq_ok_iff.1 hbases
  have hbases := h.bases_perm
  rw [hnames] at hbases
  obtain ⟨names', hnames', hperm⟩ :
      Relation.Comp (· = List.map .ok ·) (List.Perm · ·) (c'.bases.map Expr.typeName) names := by
    rw [List.eq_map_comp_perm]
    exact hbases
  exact ⟨_, baseNames_eq_ok_iff.2 ⟨names', hnames', rfl⟩, hperm.filterMap _⟩

theorem lists (h : c.Rearranged c') {names : List String} (hlists : c.Lists names) :
    c'.Lists names := by
  obtain ⟨bases, hbases, n, hn, hname⟩ := hlists
  obtain ⟨bases', hbases', hperm⟩ := h.exists_baseNames hbases
  exact ⟨bases', hbases', n, hperm.mem_iff.2 hn, hname⟩

end ClassDecl.Rearranged

namespace ClassTable.Rearranged

open PayloadRules

variable {T T' : ClassTable} {r : PayloadRules} {k k' c b : ClassDecl}

theorem symm (h : T.Rearranged T') : T'.Rearranged T := by
  intro n
  have hn := h n
  generalize (T.classes n).head? = found, (T'.classes n).head? = found' at hn ⊢
  cases hn with
  | some hclass => exact .some hclass.symm
  | none => exact .none

theorem exists_class (h : T.Rearranged T') {n : String} (hb : (T.classes n).head? = some b) :
    ∃ b', (T'.classes n).head? = some b' ∧ b.Rearranged b' := by
  have hn := h n
  rw [hb] at hn
  generalize (T'.classes n).head? = found at hn ⊢
  cases hn with
  | some hclass => exact ⟨_, rfl, hclass⟩

theorem exists_base (h : T.Rearranged T') {c' : ClassDecl} (hc : c.Rearranged c')
    (hb : IsBase T.classes r c b) : ∃ b', IsBase T'.classes r c' b' ∧ b.Rearranged b' := by
  obtain ⟨names, hnames, n, hn, hschema, henum, hclass, hkey⟩ := isBase_iff.1 hb
  obtain ⟨names', hnames', hperm⟩ := hc.exists_baseNames hnames
  obtain ⟨b', hclass', hbb'⟩ := h.exists_class hclass
  refine ⟨b', isBase_iff.2 ?_, hbb'⟩
  exact ⟨names', hnames', n, hperm.mem_iff.2 hn, hschema, henum, hclass',
    by rw [hbb'.key_eq, hc.key_eq]; exact hkey⟩

theorem exists_reached (h : T.Rearranged T') (hk : k.Rearranged k')
    (hc : Reaches T.classes r k c) : ∃ c', Reaches T'.classes r k' c' ∧ c.Rearranged c' := by
  induction hc with
  | refl => exact ⟨k', .refl, hk⟩
  | tail _ hbase ih =>
    obtain ⟨c', hc', hcc'⟩ := ih
    obtain ⟨b', hb', hbb'⟩ := h.exists_base hcc' hbase
    exact ⟨b', hc'.tail hb', hbb'⟩

theorem exists_lists (h : T.Rearranged T') (hk : k.Rearranged k') {names : List String}
    (hlists : ∃ c, Reaches T.classes r k c ∧ c.Lists names) :
    ∃ c, Reaches T'.classes r k' c ∧ c.Lists names := by
  obtain ⟨c, hc, hlists⟩ := hlists
  obtain ⟨c', hc', hcc'⟩ := h.exists_reached hk hc
  exact ⟨c', hc', hcc'.lists hlists⟩

theorem exists_lists_iff (h : T.Rearranged T') (hk : k.Rearranged k') {names : List String} :
    (∃ c, Reaches T'.classes r k' c ∧ c.Lists names) ↔
      ∃ c, Reaches T.classes r k c ∧ c.Lists names :=
  ⟨h.symm.exists_lists hk.symm, h.exists_lists hk⟩

theorem not_basesFail (h : T.Rearranged T') (hk : k.Rearranged k')
    (hfail : ∀ f, ¬ BasesFail T.classes r k f) : ∀ f, ¬ BasesFail T'.classes r k' f := by
  rintro f ⟨c', hc', herror⟩
  obtain ⟨c, hc, hcc'⟩ := h.symm.exists_reached hk.symm hc'
  cases hbases : c.baseNames with
  | error f' => exact hfail f' ⟨c, hc, hbases⟩
  | ok bases =>
    obtain ⟨bases', hbases', -⟩ := hcc'.symm.exists_baseNames hbases
    cases hbases'.symm.trans herror

end ClassTable.Rearranged

/-- Units whose classes list their bases in other orders have tables that differ in this only. -/
theorem SourceUnit.rearranged_classTable {u u' : SourceUnit}
    (h : List.Forall₂ ClassDecl.Rearranged u.classes u'.classes) :
    u.classTable.Rearranged u'.classTable := by
  intro n
  simp only [classTable, Option.head?_toList, findClass?]
  generalize u.classes = cs, u'.classes = cs' at h ⊢
  induction h with
  | nil => exact .none
  | @cons c c' _ _ hc _ ih =>
    have hname := hc.name_eq
    by_cases hn : c.name = n
    · rw [List.find?_cons_of_pos (by simpa using hn),
        List.find?_cons_of_pos (by simpa using hname.trans hn)]
      exact .some hc
    · rw [List.find?_cons_of_neg (by simpa using hn),
        List.find?_cons_of_neg (by simpa [hname] using hn)]
      exact ih

/-! ## The search is reachability -/

/-- Two searches for conditions that are equivalent find the same. -/
theorem Meets.eq_of_iff {S S' : Fault → Prop} {p p' : Prop} {x x' : Except Fault Bool}
    (h : Meets S (fun found => found = true ↔ p) x)
    (h' : Meets S' (fun found => found = true ↔ p') x')
    (hnone : ∀ f, ¬ S f) (hnone' : ∀ f, ¬ S' f) (hiff : p' ↔ p) : x = x' := by
  obtain ⟨a, rfl, ha⟩ := h.exists_ok hnone
  obtain ⟨a', rfl, ha'⟩ := h'.exists_ok hnone'
  rw [Bool.eq_iff_iff.2 (ha.trans (hiff.symm.trans ha'.symm))]

open PayloadRules

/-- The search for names among bases ends, for every class of a table.  It finds one exactly if a
class that is reached lists one.  It fails only with a class that is reached and whose bases cannot
be read, and finds nothing only if there is no such class.  So it makes no difference to what counts
as an enumeration, and as a class with fields, in which order bases are listed. -/
theorem hasBase_iff_reaches (T : ClassTable) (r : PayloadRules) {k : ClassDecl}
    (hk : k ∈ T.declared) :
    (∀ names,
      (∃ least, ∀ n, least ≤ n → (Recursion.hasBase T.classes r names n k).run =
        some ((r.hasBase (T.limit + 1) names k).answer T.classes)) ∧
      Meets (BasesFail T.classes r k)
        (fun found => (found = true ↔ ∃ c, Reaches T.classes r k c ∧ c.Lists names) ∧
          (found = true ∨ ∀ f, ¬ BasesFail T.classes r k f))
        ((r.hasBase (T.limit + 1) names k).answer T.classes)) ∧
    ((∀ f, ¬ BasesFail T.classes r k f) → ∀ (T' : ClassTable), ∀ k' ∈ T'.declared,
      T.Rearranged T' → k.Rearranged k' →
      (r.isEnum (T.limit + 1) k).answer T.classes =
        (r.isEnum (T'.limit + 1) k').answer T'.classes ∧
      (r.isStructured (T.limit + 1) k).answer T.classes =
        (r.isStructured (T'.limit + 1) k').answer T'.classes) := by
  have hlimit (T : ClassTable) (k : ClassDecl) : SufficesWith T.classes k (T.limit + 1) :=
    T.suffices_limit.with_any k
  have htell {T : ClassTable} {k : ClassDecl} (hk : k ∈ T.declared) : KeysTellApart T.classes r k :=
    (ClassTable.identifies_of_mem hk).keysTellApart r
  refine ⟨fun names => ⟨(Recursion.ends_hasBase (hlimit T k)).exists_least,
    meets_hasBase (hlimit T k) (htell hk)⟩, fun hfail T' k' hk' hT hkk' => ?_⟩
  have hfail' := hT.not_basesFail hkk' hfail
  constructor
  · have hsearch {T : ClassTable} {k : ClassDecl} (hk : k ∈ T.declared) :
        Meets (BasesFail T.classes r k)
          (fun found => found = true ↔ ∃ c, Reaches T.classes r k c ∧ c.Lists r.enumBases)
          ((r.isEnum (T.limit + 1) k).answer T.classes) :=
      (meets_hasBase (hlimit T k) (htell hk)).mono (fun _ hf => hf) fun _ hfound => hfound.1
    exact (hsearch hk).eq_of_iff (hsearch hk') hfail hfail' (hT.exists_lists_iff hkk')
  · refine (meets_isStructured (hlimit T k) (htell hk)).eq_of_iff
      (meets_isStructured (hlimit T' k') (htell hk')) hfail hfail' ?_
    have hfields : k'.properties ≠ [] ↔ k.properties ≠ [] := by
      rw [ne_eq, ne_eq, ← List.map_eq_nil_iff (f := PropertyDecl.name), hkk'.fields_eq,
        List.map_eq_nil_iff]
    rw [hT.exists_lists_iff hkk', hT.exists_lists_iff hkk', hkk'.decorators_eq, hfields]

/-- A class that inherits from itself, and from an enumeration behind the circle. -/
def circular (bases : String) : String :=
  "class A(B): 0\nclass B(" ++ bases ++ "): 0\nclass C(Enum): 0\n"

end

/-- The enumeration is found from the circle, whichever base is listed first. -/
theorem hasBase_iff_reaches_circular :
    let rules : PayloadRules := ⟨5, ["BaseModel"], ["Enum"]⟩
    let path : Path := ⟨"/", ["m.py"]⟩
    ∃ u u' k k', (SourceUnit.ofText path (circular "A, C")).toOption = some u ∧
      (SourceUnit.ofText path (circular "C, A")).toOption = some u' ∧
      u.findClass? "A" = some k ∧ u'.findClass? "A" = some k' ∧
      (∃ c, PayloadRules.Reaches u.classTable.classes rules k c ∧ c.Lists ["Enum"]) ∧
      (rules.isEnum (u.classTable.limit + 1) k).answer u.classTable.classes = .ok true ∧
      (rules.isEnum (u'.classTable.limit + 1) k').answer u'.classTable.classes = .ok true := by
  intro rules path
  have hchecked : ((SourceUnit.ofText path (circular "A, C")).toOption.any fun u =>
      (SourceUnit.ofText path (circular "C, A")).toOption.any fun u' =>
        decide (List.Forall₂ ClassDecl.Rearranged u.classes u'.classes) &&
        u.classes.all (fun c => c.baseNames.toOption.isSome) &&
        (u.findClass? "A").any fun k =>
          ((rules.isEnum (u.classTable.limit + 1) k).answer u.classTable.classes).toOption.any id) =
      true := by decide +kernel
  obtain ⟨u, hu, hchecked⟩ := (Option.any_eq_true _ _).1 hchecked
  obtain ⟨u', hu', hchecked⟩ := (Option.any_eq_true _ _).1 hchecked
  simp only [Bool.and_eq_true, decide_eq_true_eq] at hchecked
  obtain ⟨⟨hclasses, hread⟩, hfound⟩ := hchecked
  obtain ⟨k, hk, hfound⟩ := (Option.any_eq_true _ _).1 hfound
  obtain ⟨found, hfound, rfl⟩ := exists_ok_of_any hfound
  have hT := SourceUnit.rearranged_classTable hclasses
  have hhead : (u.classTable.classes "A").head? = some k := Option.head?_toList.trans hk
  obtain ⟨k', hk', hkk'⟩ := hT.exists_class hhead
  obtain ⟨hsearch, horder⟩ :=
    hasBase_iff_reaches u.classTable rules (List.mem_of_find?_eq_some hk)
  obtain ⟨henum, -⟩ := horder
    (PayloadRules.not_basesFail_classTable (List.mem_of_find?_eq_some hk) hread) u'.classTable k'
    (ClassTable.mem_of_inReach ⟨"A", hk'⟩) hT hkk'
  refine ⟨u, u', k, k', hu, hu', hk, Option.head?_toList.symm.trans hk', ?_, hfound,
    henum ▸ hfound⟩
  have hmeets := (hsearch ["Enum"]).2
  rw [show (rules.hasBase (u.classTable.limit + 1) ["Enum"] k).answer u.classTable.classes =
    .ok true from hfound] at hmeets
  cases hmeets with
  | ok hiff => exact hiff.1.1 rfl

/-- An enumeration with another base that cannot be read. -/
def unreadableEnum : String :=
  "class A(Enum, \"\\0\"): 0\n"

/-- The search from a class with a base that cannot be read fails, although another of its bases has
the name that is searched for. -/
theorem hasBase_unreadable :
    let rules : PayloadRules := ⟨5, ["BaseModel"], ["Enum"]⟩
    ∃ u, (SourceUnit.ofText ⟨"/", ["m.py"]⟩ unreadableEnum).toOption = some u ∧
      ∃ k ∈ u.classTable.declared, (rules.isEnum (u.classTable.limit + 1) k).answer
        u.classTable.classes = .error .nullCharacter := by
  intro rules
  have hchecked : ((SourceUnit.ofText ⟨"/", ["m.py"]⟩ unreadableEnum).toOption.any fun u =>
      u.classTable.declared.any fun k => (rules.isEnum (u.classTable.limit + 1) k).answer
        u.classTable.classes = .error .nullCharacter) = true := by decide +kernel
  obtain ⟨u, hu, hchecked⟩ := (Option.any_eq_true _ _).1 hchecked
  obtain ⟨k, hk, hfails⟩ := List.any_eq_true.1 hchecked
  exact ⟨u, hu, k, hk, of_decide_eq_true hfails⟩

end RouteLens
