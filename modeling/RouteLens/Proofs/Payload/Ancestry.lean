import Mathlib.Logic.Relation
import RouteLens.Proofs.Payload.AnnotationCauses
import RouteLens.Proofs.Payload.Termination

/-!
# Walks along bases

The classes that a class inherits from are those that can be reached along the bases that the
project declares (`PayloadRules.Reaches`).  A walk visits them depth first: a class is marked, its
bases are walked one after the other, and then it is finished; a marked class is passed over.
`Tours` gives the classes that a walk finishes, in order.

A walk that starts with nothing marked finishes exactly the classes that are reached, whether or not
they inherit from each other in a circle (`Tours.mem_iff_reaches`).  Without circles, nothing is
finished before a class that it inherits from (`Tours.pairwise`).
-/

namespace RouteLens

variable {edition : Nat} [CharacterNames edition]

/-- Finitely many classes that their keys tell apart, and a way to look up some of them by name: the
class that is found for a name has this name.  Other classes of the name may be declared, in the
same file or elsewhere. -/
structure ClassTable where
  declared : List ClassDecl
  classes : String → List ClassDecl
  limit : Nat
  eq_of_key_eq : ∀ a ∈ declared, ∀ b ∈ declared, a.key = b.key → a = b
  mem_declared : ∀ n k, (classes n).head? = some k → k ∈ declared
  named : ∀ n k, (classes n).head? = some k → k.name = n
  length_declared_le : declared.length ≤ limit

theorem ClassTable.suffices_limit (T : ClassTable) :
    PayloadRules.Suffices T.classes T.limit := by
  refine ⟨(T.declared.map ClassDecl.key).toFinset, ?_, ?_⟩
  · rintro c ⟨n, hc⟩
    exact List.mem_toFinset.2 (List.mem_map_of_mem (T.mem_declared n c hc))
  · calc (T.declared.map ClassDecl.key).toFinset.card
        ≤ (T.declared.map ClassDecl.key).length := List.toFinset_card_le _
      _ = T.declared.length := List.length_map _
      _ ≤ T.limit := T.length_declared_le

/-- The classes of a project whose units stand at the paths that they were read from. -/
def Project.classTable (d : Disk) (ls : Languages) (p : Project)
    (hpath : ∀ path u, p.unitOf d ls path = some u → u.path = path) : ClassTable where
  declared := (p.files.filterMap (p.unitOf d ls)).flatMap SourceUnit.classes
  classes := p.declarations d ls
  limit := p.size d
  eq_of_key_eq a ha b hb hkey := by
    simp only [List.mem_flatMap, List.mem_filterMap] at ha hb
    obtain ⟨u, ⟨x, -, hu⟩, ha⟩ := ha
    obtain ⟨v, ⟨y, -, hv⟩, hb⟩ := hb
    obtain ⟨hunit, hnumber⟩ := Prod.ext_iff.1 hkey
    have hxy : x = y := by
      simpa [ClassDecl.key, SourceUnit.unit_of_mem_classes ha, SourceUnit.unit_of_mem_classes hb,
        hpath x u hu, hpath y v hv] using hunit
    subst hxy
    cases hu.symm.trans hv
    exact SourceUnit.eq_of_number_eq ha hb hnumber
  mem_declared n k hk := by
    obtain ⟨u, hu, hclass⟩ := List.mem_filterMap.1 (List.mem_of_head? hk)
    exact List.mem_flatMap.2 ⟨u, hu, List.mem_of_find?_eq_some hclass⟩
  named n k hk := by
    obtain ⟨u, -, hclass⟩ := List.mem_filterMap.1 (List.mem_of_head? hk)
    simpa using List.find?_some hclass
  length_declared_le := by
    have hkeys : (p.classKeys d ls).length ≤ p.size d := Project.length_classKeys_le
    rwa [Project.classKeys, ← List.map_flatMap, List.length_map] at hkeys

/-- The classes of one file. -/
def SourceUnit.classTable (u : SourceUnit) : ClassTable where
  declared := u.classes
  classes n := (u.findClass? n).toList
  limit := u.classes.length
  eq_of_key_eq _ ha _ hb hkey := eq_of_number_eq ha hb (congrArg Prod.snd hkey)
  mem_declared n k hk := List.mem_of_find?_eq_some (Option.head?_toList.symm.trans hk)
  named n k hk := by
    rw [Option.head?_toList] at hk
    simpa using List.find?_some hk
  length_declared_le := Nat.le_refl _

namespace PayloadRules

/-! ## Bases -/

section Bases

variable (classes : String → List ClassDecl) (r : PayloadRules)

/-- The second class is one of the bases of the first that the project declares. -/
def IsBase (c b : ClassDecl) : Prop :=
  ∃ bs, (r.projectBases c).answer classes = .ok bs ∧ b ∈ bs

/-- The first class inherits from the second, directly or through its bases. -/
abbrev Inherits : ClassDecl → ClassDecl → Prop :=
  Relation.TransGen (IsBase classes r)

/-- The second class is the first one, or the first one inherits from it. -/
abbrev Reaches : ClassDecl → ClassDecl → Prop :=
  Relation.ReflTransGen (IsBase classes r)

/-- No class that is reached inherits from itself. -/
def Acyclic (k : ClassDecl) : Prop :=
  ∀ c, Reaches classes r k c → ¬ Inherits classes r c c

/-- A fault that comes from a class that is reached: the names of its bases cannot be read. -/
def BasesFail (k : ClassDecl) (f : Fault) : Prop :=
  ∃ c, Reaches classes r k c ∧ c.baseNames = .error f

end Bases

variable {classes : String → List ClassDecl} {r : PayloadRules} {c b k : ClassDecl}

theorem answer_projectBases (classes : String → List ClassDecl) (r : PayloadRules)
    (c : ClassDecl) :
    (r.projectBases c).answer classes = c.baseNames.map fun names =>
      ((names.filter fun n => !(r.schemaBases.contains n || r.enumBases.contains n)).filterMap
        fun n => (classes n).head?).filter (·.key ≠ c.key) := by
  simp only [projectBases, Inquiry.answer_seq, Inquiry.answer_lift, Recursion.answer_findBases]
  cases c.baseNames <;> rfl

theorem baseNames_of_projectBases_error {f : Fault}
    (h : (r.projectBases c).answer classes = .error f) : c.baseNames = .error f := by
  rw [answer_projectBases] at h
  cases hnames : c.baseNames with
  | ok names =>
    rw [hnames] at h
    cases h
  | error f' =>
    rw [hnames] at h
    exact congrArg Except.error (Except.error.inj h)

theorem isBase_iff : IsBase classes r c b ↔ ∃ names, c.baseNames = .ok names ∧ ∃ n ∈ names,
    n ∉ r.schemaBases ∧ n ∉ r.enumBases ∧ (classes n).head? = some b ∧ b.key ≠ c.key := by
  unfold IsBase
  rw [answer_projectBases]
  cases c.baseNames with
  | error f => simp
  | ok names => simp [← exists_and_right, and_assoc]

theorem IsBase.inReach (h : IsBase classes r c b) : InReach classes b := by
  obtain ⟨bs, hbs, hb⟩ := h
  exact inReach_of_mem_projectBases hbs b hb

theorem Reaches.eq_or_inReach (h : Reaches classes r k c) : c = k ∨ InReach classes c := by
  cases h with
  | refl => exact .inl rfl
  | tail _ hbase => exact .inr hbase.inReach

theorem BasesFail.of_reaches {f : Fault} (hk : Reaches classes r k c)
    (h : BasesFail classes r c f) : BasesFail classes r k f := by
  obtain ⟨x, hx, hf⟩ := h
  exact ⟨x, hk.trans hx, hf⟩

/-- In a file whose bases can all be read, no class fails for its bases. -/
theorem not_basesFail_classTable {u : SourceUnit} (hk : k ∈ u.classes)
    (h : u.classes.all (fun c => c.baseNames.toOption.isSome) = true) (f : Fault) :
    ¬ BasesFail u.classTable.classes r k f := by
  rintro ⟨c, hc, herror⟩
  have hmem : c ∈ u.classes := by
    obtain rfl | ⟨n, hn⟩ := hc.eq_or_inReach
    · exact hk
    · exact List.mem_of_find?_eq_some (Option.head?_toList.symm.trans hn)
  have hread := List.all_eq_true.1 h c hmem
  rw [herror] at hread
  cases hread

/-- The keys of the classes that a class reaches tell them apart. -/
def KeysTellApart (classes : String → List ClassDecl) (r : PayloadRules) (k : ClassDecl) : Prop :=
  ∀ {a b}, Reaches classes r k a → Reaches classes r k b → a.key = b.key → a = b

end PayloadRules

namespace ClassTable

open PayloadRules

variable {T : ClassTable} {k : ClassDecl}

/-- No other class that is found has the key of a class. -/
def Identifies (T : ClassTable) (k : ClassDecl) : Prop :=
  ∀ b, InReach T.classes b → b.key = k.key → b = k

theorem mem_of_inReach (h : InReach T.classes k) : k ∈ T.declared := by
  obtain ⟨n, hk⟩ := h
  exact T.mem_declared n k hk

theorem identifies_of_mem (hk : k ∈ T.declared) : T.Identifies k :=
  fun b hb hkey => T.eq_of_key_eq b (mem_of_inReach hb) k hk hkey

theorem identifies_of_findClass? {u : SourceUnit} {n : String} (hk : u.findClass? n = some k) :
    u.classTable.Identifies k :=
  identifies_of_mem (List.mem_of_find?_eq_some hk)

theorem Identifies.keysTellApart (hk : T.Identifies k) (r : PayloadRules) :
    KeysTellApart T.classes r k := by
  intro a b ha hb hkey
  obtain ha | ha := ha.eq_or_inReach <;> obtain hb | hb := hb.eq_or_inReach
  · rw [ha, hb]
  · exact ha ▸ (hk b hb (ha ▸ hkey.symm)).symm
  · exact hb ▸ hk a ha (hb ▸ hkey)
  · exact T.eq_of_key_eq a (mem_of_inReach ha) b (mem_of_inReach hb) hkey

end ClassTable

namespace PayloadRules

/-! ## Walks -/

/-- A walk from some classes, after others have been marked: the classes that it finishes, in order,
and all that is marked in the end. -/
inductive Tours (classes : String → List ClassDecl) (r : PayloadRules) :
    Visited → List ClassDecl → List ClassDecl → Visited → Prop
  | nil {seen : Visited} : Tours classes r seen [] [] seen
  | pass {seen seen' : Visited} {c : ClassDecl} {cs os : List ClassDecl} (hc : c.key ∈ seen)
      (rest : Tours classes r seen cs os seen') : Tours classes r seen (c :: cs) os seen'
  | enter {seen seen₁ seen₂ : Visited} {c : ClassDecl} {bs cs os₁ os₂ : List ClassDecl}
      (hc : c.key ∉ seen) (hbs : (r.projectBases c).answer classes = .ok bs)
      (below : Tours classes r (c.key :: seen) bs os₁ seen₁)
      (rest : Tours classes r seen₁ cs os₂ seen₂) :
      Tours classes r seen (c :: cs) (os₁ ++ c :: os₂) seen₂

namespace Tours

variable {classes : String → List ClassDecl} {r : PayloadRules} {seen seen' : Visited}
  {c k : ClassDecl} {cs os : List ClassDecl}

theorem single (hc : c.key ∉ seen) {bs : List ClassDecl}
    (hbs : (r.projectBases c).answer classes = .ok bs)
    (below : Tours classes r (c.key :: seen) bs os seen') :
    Tours classes r seen [c] (os ++ [c]) seen' :=
  .enter hc hbs below .nil

theorem cons {seen₁ : Visited} {os₁ : List ClassDecl} (first : Tours classes r seen [c] os₁ seen₁)
    (rest : Tours classes r seen₁ cs os seen') :
    Tours classes r seen (c :: cs) (os₁ ++ os) seen' := by
  cases first with
  | pass hc hnil =>
    cases hnil
    exact .pass hc rest
  | enter hc hbs below hnil =>
    cases hnil
    rw [List.append_assoc]
    exact .enter hc hbs below rest

theorem mem_seen_iff (h : Tours classes r seen cs os seen') {key : Path × Nat} :
    key ∈ seen' ↔ key ∈ seen ∨ ∃ c ∈ os, c.key = key := by
  induction h with
  | nil => simp
  | pass hc rest ih => exact ih
  | enter hc hbs below rest ihbelow ihrest =>
    rw [ihrest, ihbelow]
    simp only [List.mem_cons, List.mem_append, or_and_right, exists_or, exists_eq_left]
    grind

theorem subset (h : Tours classes r seen cs os seen') : seen ⊆ seen' :=
  fun _ hkey => h.mem_seen_iff.2 (.inl hkey)

/-- The classes that a walk starts from are marked in the end. -/
theorem starts (h : Tours classes r seen cs os seen') : ∀ s ∈ cs, s.key ∈ seen' := by
  induction h with
  | nil => exact List.forall_mem_nil _
  | pass hc rest ih => exact List.forall_mem_cons.2 ⟨rest.subset hc, ih⟩
  | enter hc hbs below rest ihbelow ihrest =>
    exact List.forall_mem_cons.2 ⟨rest.subset (below.subset List.mem_cons_self), ihrest⟩

/-- What is finished was not marked before. -/
theorem fresh (h : Tours classes r seen cs os seen') : ∀ c ∈ os, c.key ∉ seen := by
  induction h with
  | nil => exact List.forall_mem_nil _
  | pass hc rest ih => exact ih
  | @enter _ _ _ c _ _ _ _ hc hbs below rest ihbelow ihrest =>
    intro x hx hseen
    have hmarked := List.mem_cons_of_mem c.key hseen
    rcases List.mem_append.1 hx with hx | hx
    · exact ihbelow x hx hmarked
    · rcases List.mem_cons.1 hx with rfl | hx
      · exact hc hseen
      · exact ihrest x hx (below.subset hmarked)

/-- A tour meets only classes that are reached from where it starts. -/
theorem reached (h : Tours classes r seen cs os seen') :
    ∀ c ∈ os, ∃ s ∈ cs, Reaches classes r s c := by
  induction h with
  | nil => exact List.forall_mem_nil _
  | pass hc rest ih =>
    intro x hx
    obtain ⟨s, hs, hreach⟩ := ih x hx
    exact ⟨s, List.mem_cons_of_mem _ hs, hreach⟩
  | @enter _ _ _ c bs cs os₁ os₂ hc hbs below rest ihbelow ihrest =>
    intro x hx
    rcases List.mem_append.1 hx with hx | hx
    · obtain ⟨b, hb, hreach⟩ := ihbelow x hx
      exact ⟨c, List.mem_cons_self, .head ⟨bs, hbs, hb⟩ hreach⟩
    · rcases List.mem_cons.1 hx with rfl | hx
      · exact ⟨x, List.mem_cons_self, .refl⟩
      · obtain ⟨s, hs, hreach⟩ := ihrest x hx
        exact ⟨s, List.mem_cons_of_mem _ hs, hreach⟩

/-- The bases of a class that is finished are marked in the end. -/
theorem closed (h : Tours classes r seen cs os seen') :
    ∀ c ∈ os, ∀ b, IsBase classes r c b → b.key ∈ seen' := by
  induction h with
  | nil => exact List.forall_mem_nil _
  | pass hc rest ih => exact ih
  | enter hc hbs below rest ihbelow ihrest =>
    intro x hx b hb
    rcases List.mem_append.1 hx with hx | hx
    · exact rest.subset (ihbelow x hx b hb)
    · rcases List.mem_cons.1 hx with rfl | hx
      · obtain ⟨bs', hbs', hmem⟩ := hb
        rw [hbs] at hbs'
        cases hbs'
        exact rest.subset (below.starts b hmem)
      · exact ihrest x hx b hb

theorem exists_bases (h : Tours classes r seen cs os seen') :
    ∀ c ∈ os, ∃ bs, (r.projectBases c).answer classes = .ok bs := by
  induction h with
  | nil => exact List.forall_mem_nil _
  | pass hc rest ih => exact ih
  | enter hc hbs below rest ihbelow ihrest =>
    exact List.forall_mem_append.2 ⟨ihbelow, List.forall_mem_cons.2 ⟨⟨_, hbs⟩, ihrest⟩⟩

theorem reaches_root (h : Tours classes r seen cs os seen')
    (hcs : ∀ s ∈ cs, Reaches classes r k s) : ∀ x ∈ os, Reaches classes r k x := by
  intro x hx
  obtain ⟨s, hs, hreach⟩ := h.reached x hx
  exact (hcs s hs).trans hreach

/-- A walk finishes whatever it marks. -/
theorem mem_seen_or_mem (hkeys : KeysTellApart classes r k)
    (hcs : ∀ s ∈ cs, Reaches classes r k s) (h : Tours classes r seen cs os seen')
    (hc : Reaches classes r k c) (hkey : c.key ∈ seen') : c.key ∈ seen ∨ c ∈ os := by
  obtain hkey | ⟨x, hx, hxc⟩ := h.mem_seen_iff.1 hkey
  · exact .inl hkey
  · exact .inr (hkeys (h.reaches_root hcs x hx) hc hxc ▸ hx)

/-- A walk from one class with nothing marked finishes what the class reaches. -/
theorem mem_iff_reaches (hkeys : KeysTellApart classes r k) (h : Tours classes r [] [k] os seen') :
    c ∈ os ↔ Reaches classes r k c := by
  have hstart : ∀ s ∈ [k], Reaches classes r k s := List.forall_mem_singleton.2 .refl
  have hmem (x : ClassDecl) (hx : Reaches classes r k x) (hkey : x.key ∈ seen') : x ∈ os :=
    (h.mem_seen_or_mem hkeys hstart hx hkey).resolve_left List.not_mem_nil
  refine ⟨h.reaches_root hstart c, fun hreach => ?_⟩
  induction hreach with
  | refl => exact hmem k .refl (h.starts k List.mem_cons_self)
  | tail hreach hbase ih => exact hmem _ (hreach.tail hbase) (h.closed _ ih _ hbase)

/-- A walk from one class with nothing marked reads the bases of all that it reaches. -/
theorem not_basesFail (hkeys : KeysTellApart classes r k) (h : Tours classes r [] [k] os seen')
    (f : Fault) : ¬ BasesFail classes r k f := by
  rintro ⟨c, hc, herror⟩
  obtain ⟨bs, hbs⟩ := h.exists_bases c ((h.mem_iff_reaches hkeys).2 hc)
  rw [answer_projectBases, herror] at hbs
  cases hbs

/-! ## Walks without circles -/

/-- Below a class, whatever is marked is marked with its bases. -/
def Settled (classes : String → List ClassDecl) (r : PayloadRules) (seen : Visited)
    (c : ClassDecl) : Prop :=
  ∀ x, Reaches classes r c x → x.key ∈ seen → ∀ b, IsBase classes r x b → b.key ∈ seen

theorem Settled.key_mem (h : Settled classes r seen c) (hc : c.key ∈ seen) {x : ClassDecl}
    (hx : Reaches classes r c x) : x.key ∈ seen := by
  induction hx with
  | refl => exact hc
  | tail hreach hbase ih => exact h _ hreach ih _ hbase

section Settled

variable (hkeys : KeysTellApart classes r k)
include hkeys

/-- A walk leaves settled what was settled. -/
theorem Settled.after (hc : Reaches classes r k c) (hsettled : Settled classes r seen c)
    (hcs : ∀ s ∈ cs, Reaches classes r k s) (h : Tours classes r seen cs os seen') :
    Settled classes r seen' c := by
  intro x hx hkey b hb
  obtain hkey | hmem := h.mem_seen_or_mem hkeys hcs (hc.trans hx) hkey
  · exact h.subset (hsettled x hx hkey b hb)
  · exact h.closed x hmem b hb

/-- What is reached from the classes that a walk starts from is marked in the end. -/
theorem marks_reached (hcs : ∀ s ∈ cs, Reaches classes r k s)
    (hsettled : ∀ s ∈ cs, Settled classes r seen s) (h : Tours classes r seen cs os seen')
    {s x : ClassDecl} (hs : s ∈ cs) (hx : Reaches classes r s x) : x.key ∈ seen' :=
  (Settled.after hkeys (hcs s hs) (hsettled s hs) hcs h).key_mem (h.starts s hs) hx

variable (hacyclic : Acyclic classes r k)
include hacyclic

/-- Marking a class leaves settled what is below its bases. -/
theorem Settled.mark (hc : Reaches classes r k c) (h : Settled classes r seen c) {b : ClassDecl}
    (hb : IsBase classes r c b) : Settled classes r (c.key :: seen) b := by
  intro x hx hkey y hy
  refine List.mem_cons_of_mem _ (h x (.head hb hx) ?_ y hy)
  obtain hkey | hkey := List.mem_cons.1 hkey
  · -- a base that reaches the class closes a circle
    have hxc : x = c := hkeys (hc.trans (.head hb hx)) hc hkey
    exact (hacyclic c hc (.head' hb (hxc ▸ hx))).elim
  · exact hkey

/-- Without circles, no class is finished before one that it inherits from. -/
theorem pairwise (hcs : ∀ s ∈ cs, Reaches classes r k s)
    (hsettled : ∀ s ∈ cs, Settled classes r seen s) (h : Tours classes r seen cs os seen') :
    os.Pairwise fun a b => ¬ Inherits classes r a b := by
  induction h with
  | nil => exact .nil
  | pass hc rest ih =>
    exact ih (fun s hs => hcs s (List.mem_cons_of_mem _ hs))
      fun s hs => hsettled s (List.mem_cons_of_mem _ hs)
  | @enter seen seen₁ _ c bs cs os₁ os₂ hc hbs below rest ihbelow ihrest =>
    have hkc := hcs c List.mem_cons_self
    have hbase (b : ClassDecl) (hb : b ∈ bs) : IsBase classes r c b := ⟨bs, hbs, hb⟩
    have hkbs (b : ClassDecl) (hb : b ∈ bs) : Reaches classes r k b := hkc.tail (hbase b hb)
    have hkcs (s : ClassDecl) (hs : s ∈ cs) := hcs s (List.mem_cons_of_mem _ hs)
    have hfirst : Tours classes r seen [c] (os₁ ++ [c]) seen₁ := .single hc hbs below
    have hkfirst : ∀ s ∈ [c], Reaches classes r k s := List.forall_mem_singleton.2 hkc
    have hcsettled := hsettled c List.mem_cons_self
    have hbelow := ihbelow hkbs fun b hb => hcsettled.mark hkeys hacyclic hkc (hbase b hb)
    have hrest := ihrest hkcs fun s hs =>
      (hsettled s (List.mem_cons_of_mem _ hs)).after hkeys (hkcs s hs) hkfirst hfirst
    have hunder (x : ClassDecl) (hx : x ∈ os₁) : Reaches classes r c x := by
      obtain ⟨b, hb, hreach⟩ := below.reached x hx
      exact .head (hbase b hb) hreach
    -- what the rest finishes was not marked below the class, so it is not reached from it
    have hlater (x : ClassDecl) (hx : Reaches classes r c x) (y : ClassDecl) (hy : y ∈ os₂) :
        ¬ Inherits classes r x y := by
      intro hxy
      refine rest.fresh y hy ?_
      exact hfirst.marks_reached hkeys hkfirst (List.forall_mem_singleton.2 hcsettled)
        List.mem_cons_self (hx.trans hxy.to_reflTransGen)
    refine List.pairwise_append.2 ⟨hbelow, List.pairwise_cons.2 ⟨hlater c .refl, hrest⟩, ?_⟩
    intro x hx y hy hxy
    rcases List.mem_cons.1 hy with rfl | hy
    · exact hacyclic y hkc (hxy.trans_right (hunder x hx))
    · exact hlater x (hunder x hx) y hy hxy

end Settled

end Tours

end PayloadRules

end RouteLens
