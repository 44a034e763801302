import RouteLens.Proofs.Payload.InheritedFields

/-!
# Fields and linearizations

A linearization puts a class and all that it inherits from into one order: the class comes first,
and behind it the linearizations of its bases are merged with the list of its bases.  A merge takes,
again and again, the first head of a list that stands behind the head of none (`Takes`).

The fields of a class follow its linearization where one class that declares a field inherits from
all others that do.  Else they do not: where several bases bring a declaration, the one counts that
is listed last, not the one that is listed first (`fields_follow_last_base`).
-/

namespace RouteLens

section

variable {edition : Nat} [CharacterNames edition]

/-! ## Merging orders -/

section Merges

variable {α : Type} {ls ls' : List (List α)} {x : α} {order : List α}

/-- The next member of a merge: the first head that stands behind the head of no list.  It is
removed wherever it is a head. -/
structure Takes (ls : List (List α)) (x : α) (ls' : List (List α)) : Prop where
  first : ∃ left l right, ls = left ++ (x :: l) :: right ∧
    ∀ m ∈ left, ∀ y ∈ m.head?, ∃ m' ∈ ls, y ∈ m'.tail
  removed : List.Forall₂ (fun l l' => x ∉ l' ∧ (l = x :: l' ∨ l = l')) ls ls'

/-- An order that some orders merge into. -/
inductive Merges : List (List α) → List α → Prop
  | done {ls : List (List α)} (h : ∀ l ∈ ls, l = []) : Merges ls []
  | take {ls ls' : List (List α)} {x : α} {order : List α} (h : Takes ls x ls')
      (rest : Merges ls' order) : Merges ls (x :: order)

theorem exists_rel_of_mem {β : Type} {R : α → β → Prop} {as : List α} {bs : List β}
    (h : List.Forall₂ R as bs) {a : α} (ha : a ∈ as) : ∃ b ∈ bs, R a b := by
  induction h with
  | nil => cases ha
  | @cons a' b _ bs hab _ ih =>
    rcases List.mem_cons.1 ha with rfl | ha
    · exact ⟨b, List.mem_cons_self, hab⟩
    · exact (ih ha).imp fun _ h => ⟨List.mem_cons_of_mem _ h.1, h.2⟩

theorem Takes.mem (h : Takes ls x ls') : ∃ l ∈ ls, x ∈ l := by
  obtain ⟨left, l, right, rfl, -⟩ := h.first
  exact ⟨x :: l, by simp, List.mem_cons_self⟩

theorem Takes.exists_old (h : Takes ls x ls') {l' : List α} (hl' : l' ∈ ls') :
    x ∉ l' ∧ ∃ l ∈ ls, l'.Sublist l := by
  obtain ⟨l, hl, hnot, hcons | rfl⟩ := exists_rel_of_mem h.removed.flip hl'
  · exact ⟨hnot, l, hl, hcons ▸ List.sublist_cons_self x l'⟩
  · exact ⟨hnot, l, hl, .refl l⟩

/-- Every order that is merged is kept. -/
theorem Merges.sublist (h : Merges ls order) : ∀ l ∈ ls, l.Sublist order := by
  induction h with
  | done hnil =>
    intro l hl
    rw [hnil l hl]
  | @take ls ls' x order h rest ih =>
    intro l hl
    obtain ⟨l', hl', -, rfl | rfl⟩ := exists_rel_of_mem h.removed hl
    · exact (ih l' hl').cons_cons x
    · exact (ih l hl').cons x

theorem Merges.exists_of_mem (h : Merges ls order) : ∀ y ∈ order, ∃ l ∈ ls, y ∈ l := by
  induction h with
  | done hnil => exact List.forall_mem_nil _
  | take h rest ih =>
    refine List.forall_mem_cons.2 ⟨h.mem, fun y hy => ?_⟩
    obtain ⟨l', hl', hmem⟩ := ih y hy
    obtain ⟨-, l, hl, hsub⟩ := h.exists_old hl'
    exact ⟨l, hl, hsub.subset hmem⟩

theorem Merges.nodup (h : Merges ls order) : order.Nodup := by
  induction h with
  | done hnil => exact List.nodup_nil
  | take h rest ih =>
    refine List.nodup_cons.2 ⟨fun hmem => ?_, ih⟩
    obtain ⟨l', hl', hmem⟩ := rest.exists_of_mem _ hmem
    exact (h.exists_old hl').1 hmem

theorem not_pair_sublist {w v : α} {before behind : List α} (hw : w ∉ before) (hv : v ∉ behind) :
    ¬ [w, v].Sublist (before ++ v :: behind) := by
  intro hsub
  obtain ⟨l₁, l₂, hpair, h₁, h₂⟩ := List.sublist_append_iff.1 hsub
  cases l₁ with
  | cons a l₁ =>
    obtain ⟨rfl, -⟩ := List.cons.inj hpair
    exact hw (h₁.subset List.mem_cons_self)
  | nil =>
    rw [List.nil_append] at hpair
    subst hpair
    cases h₂ with
    | cons _ h => exact hv (h.subset (by simp))
    | cons_cons _ h => exact hv (h.subset (by simp))

end Merges

namespace PayloadRules

variable {classes : String → List ClassDecl} {r : PayloadRules} {c k x w v : ClassDecl}
  {order : List ClassDecl} {f : String} {p : PropertyDecl}

/-! ## Linearizations -/

/-- An order is the linearization of a class. -/
inductive Linearizes (classes : String → List ClassDecl) (r : PayloadRules) :
    ClassDecl → List ClassDecl → Prop
  | intro {c : ClassDecl} {bs rest : List ClassDecl} (lin : ClassDecl → List ClassDecl)
      (hbs : (r.projectBases c).answer classes = .ok bs)
      (hlin : ∀ b ∈ bs, Linearizes classes r b (lin b))
      (hmerge : Merges (bs.map lin ++ [bs]) rest) : Linearizes classes r c (c :: rest)

namespace Linearizes

theorem exists_rest (h : Linearizes classes r k order) : ∃ rest, order = k :: rest := by
  cases h with
  | intro _ _ _ _ => exact ⟨_, rfl⟩

/-- The linearization of a base is kept behind the class. -/
theorem exists_of_isBase (h : Linearizes classes r c (c :: order)) {b : ClassDecl}
    (hb : IsBase classes r c b) : ∃ below, Linearizes classes r b below ∧ below.Sublist order := by
  cases h with
  | @intro _ bs _ lin hbs hlin hmerge =>
    obtain ⟨bs', hbs', hmem⟩ := hb
    cases hbs.symm.trans hbs'
    exact ⟨lin b, hlin b hmem, hmerge.sublist _ (by simpa using .inl ⟨b, hmem, rfl⟩)⟩

/-- The linearization of each class that is reached is kept. -/
theorem exists_of_reaches (h : Linearizes classes r k order) (hc : Reaches classes r k c) :
    ∃ below, Linearizes classes r c below ∧ below.Sublist order := by
  induction hc with
  | refl => exact ⟨order, h, .refl order⟩
  | tail _ hbase ih =>
    obtain ⟨mid, hmid, hsub⟩ := ih
    obtain ⟨rest, rfl⟩ := hmid.exists_rest
    obtain ⟨below, hbelow, hsub'⟩ := hmid.exists_of_isBase hbase
    exact ⟨below, hbelow, hsub'.trans ((List.sublist_cons_self _ _).trans hsub)⟩

theorem inherits_of_mem_tail (h : Linearizes classes r k order) (hx : x ∈ order.tail) :
    Inherits classes r k x := by
  induction h with
  | @intro k bs rest lin hbs hlin hmerge ih =>
    have hbase (b : ClassDecl) (hb : b ∈ bs) : IsBase classes r k b := ⟨bs, hbs, hb⟩
    obtain ⟨l, hl, hxl⟩ := hmerge.exists_of_mem x hx
    rcases List.mem_append.1 hl with hl | hl
    · obtain ⟨b, hb, rfl⟩ := List.mem_map.1 hl
      obtain ⟨rest', hrest'⟩ := (hlin b hb).exists_rest
      rw [hrest'] at hxl
      rcases List.mem_cons.1 hxl with rfl | hxl
      · exact .single (hbase x hb)
      · exact .head (hbase b hb) (ih b hb (hrest' ▸ hxl))
    · exact .single (hbase x (List.mem_singleton.1 hl ▸ hxl))

theorem mem_iff_reaches (h : Linearizes classes r k order) :
    c ∈ order ↔ Reaches classes r k c := by
  constructor
  · intro hc
    obtain ⟨rest, rfl⟩ := h.exists_rest
    rcases List.mem_cons.1 hc with rfl | hc
    · exact .refl
    · exact (h.inherits_of_mem_tail hc).to_reflTransGen
  · intro hc
    obtain ⟨below, hbelow, hsub⟩ := h.exists_of_reaches hc
    obtain ⟨rest, rfl⟩ := hbelow.exists_rest
    exact hsub.subset List.mem_cons_self

/-- The bases of a class that has a linearization end somewhere. -/
theorem acc (h : Linearizes classes r k order) : Acc (fun b c => IsBase classes r c b) k := by
  induction h with
  | intro lin hbs hlin hmerge ih =>
    refine ⟨_, fun b hb => ?_⟩
    obtain ⟨bs', hbs', hmem⟩ := hb
    cases hbs.symm.trans hbs'
    exact ih b hmem

theorem acyclic (h : Linearizes classes r k order) : Acyclic classes r k := by
  intro c hc hinherits
  obtain ⟨below, hbelow, -⟩ := h.exists_of_reaches hc
  have hacc := hbelow.acc.transGen
  induction hacc with
  | intro c _ ih => exact ih c (Relation.transGen_swap.2 hinherits) hc hinherits hbelow

/-- Nothing that is reached fails for its bases. -/
theorem not_basesFail (h : Linearizes classes r k order) (e : Fault) :
    ¬ BasesFail classes r k e := by
  rintro ⟨c, hc, herror⟩
  obtain ⟨below, hbelow, -⟩ := h.exists_of_reaches hc
  cases hbelow with
  | intro _ hbs _ _ =>
    rw [answer_projectBases, herror] at hbs
    cases hbs

/-- A class stands before those that it inherits from. -/
theorem sublist_of_inherits (h : Linearizes classes r k order) (hw : Reaches classes r k w)
    (hv : Inherits classes r w v) : [w, v].Sublist order := by
  obtain ⟨b, hb, hbv⟩ := Relation.TransGen.head'_iff.1 hv
  obtain ⟨below, hbelow, hsub⟩ := h.exists_of_reaches hw
  obtain ⟨rest, rfl⟩ := hbelow.exists_rest
  obtain ⟨under, hunder, hsub'⟩ := hbelow.exists_of_isBase hb
  have hmem : v ∈ rest := hsub'.subset (hunder.mem_iff_reaches.2 hbv)
  exact ((List.singleton_sublist.2 hmem).cons_cons w).trans hsub

theorem nodup (h : Linearizes classes r k order) : order.Nodup := by
  have hacyclic := h.acyclic k .refl
  obtain ⟨rest, rfl⟩ := h.exists_rest
  refine List.nodup_cons.2 ⟨fun hmem => hacyclic (h.inherits_of_mem_tail hmem), ?_⟩
  cases h with
  | intro _ _ _ hmerge => exact hmerge.nodup

theorem of_no_bases (h : (r.projectBases c).answer classes = .ok []) :
    Linearizes classes r c [c] :=
  .intro (fun c => [c]) h (List.forall_mem_nil _) (.done (by simp))

/-- Two bases without bases of their own follow in the order in which they are listed. -/
theorem of_two_bases {a b : ClassDecl} (hbs : (r.projectBases k).answer classes = .ok [a, b])
    (ha : (r.projectBases a).answer classes = .ok [])
    (hb : (r.projectBases b).answer classes = .ok []) (hne : a ≠ b) :
    Linearizes classes r k [k, a, b] := by
  refine .intro (fun c => [c]) hbs (by simp [of_no_bases ha, of_no_bases hb]) ?_
  have hfirst : Takes [[a], [b], [a, b]] a [[], [b], [b]] :=
    ⟨⟨[], [], [[b], [a, b]], rfl, by simp⟩, by simp [hne]⟩
  have hsecond : Takes [[], [b], [b]] b [[], [], []] :=
    ⟨⟨[[]], [], [[b]], rfl, by simp⟩, by simp⟩
  exact .take hfirst (.take hsecond (.done (by simp)))

/-- The first declaration of a linearization stands in the class that inherits from all others that
declare the field, if there is one. -/
theorem findSome?_eq (h : Linearizes classes r k order) (hw : Reaches classes r k w)
    (hp : w.lastProperty? f = some p)
    (hall : ∀ c, Reaches classes r k c → f ∈ c.properties.map PropertyDecl.name →
      Reaches classes r w c) :
    order.findSome? (·.lastProperty? f) = some p := by
  have hsome : (order.findSome? (·.lastProperty? f)).isSome = true :=
    List.findSome?_isSome_iff.2 ⟨w, h.mem_iff_reaches.2 hw, by rw [hp]; rfl⟩
  obtain ⟨q, hq⟩ := Option.isSome_iff_exists.1 hsome
  obtain ⟨before, v, behind, horder, hv, hnone⟩ := List.findSome?_eq_some_iff.1 hq
  have hreached : Reaches classes r k v := h.mem_iff_reaches.1 (by simp [horder])
  have hwv := hall v hreached (ClassDecl.declares_of_lastProperty? hv)
  rcases Relation.reflTransGen_iff_eq_or_transGen.1 hwv with rfl | hwv
  · rw [hq, ← hv, hp]
  · -- the class would stand in front of the first one that declares the field
    have hsub := h.sublist_of_inherits hw hwv
    have hnodup := h.nodup
    rw [horder] at hsub hnodup
    have hfront : w ∉ before := fun hmem => by
      have hwnone := hnone w hmem
      rw [hp] at hwnone
      cases hwnone
    have hlater : v ∉ behind := (List.nodup_cons.1 (List.nodup_append.1 hnodup).2.1).1
    exact (not_pair_sublist hfront hlater hsub).elim

end Linearizes

/-! ## The last base -/

/-- A class that declares a field comes with a base: it is not reached from the bases that are
listed before, and those listed behind reach no further class that declares the field. -/
structure ComesWith (classes : String → List ClassDecl) (r : PayloadRules)
    (left : List ClassDecl) (b : ClassDecl) (right : List ClassDecl) (f : String)
    (w : ClassDecl) : Prop where
  reached : Reaches classes r b w
  not_before : ∀ a ∈ left, ¬ Reaches classes r a w
  not_behind : ∀ a ∈ right, ∀ c, Reaches classes r a c →
    f ∈ c.properties.map PropertyDecl.name → ∃ a' ∈ left ++ [b], Reaches classes r a' c
  own : f ∈ b.properties.map PropertyDecl.name → w = b

/-- A walk that finishes a declaration last has a start that it comes from: the walks before and
behind it are walks of their own. -/
theorem Tours.exists_last {seen seen' : Visited} {cs os : List ClassDecl}
    (h : Tours classes r seen cs os seen') (hp : lastDeclaration? os f = some p) :
    ∃ left b right osl osb osr s₁ s₂, cs = left ++ b :: right ∧
      Tours classes r seen left osl s₁ ∧ Tours classes r s₁ [b] osb s₂ ∧
      Tours classes r s₂ right osr seen' ∧ lastDeclaration? osb f = some p ∧
      lastDeclaration? osr f = none := by
  induction h with
  | nil => cases hp
  | @pass seen seen' c cs os hc rest ih =>
    obtain ⟨left, b, right, osl, osb, osr, s₁, s₂, rfl, hleft, htours⟩ := ih hp
    exact ⟨c :: left, b, right, osl, osb, osr, s₁, s₂, rfl, .pass hc hleft, htours⟩
  | @enter seen seen₁ seen₂ c bs cs os₁ os₂ hc hbs below rest _ ih =>
    have hfirst : Tours classes r seen [c] (os₁ ++ [c]) seen₁ := .single hc hbs below
    rw [← List.singleton_append, ← List.append_assoc, lastDeclaration?_append] at hp
    cases hrest : lastDeclaration? os₂ f with
    | some q =>
      rw [hrest] at hp
      cases hp
      obtain ⟨left, b, right, osl, osb, osr, s₁, s₂, rfl, hleft, htours⟩ := ih hrest
      exact ⟨c :: left, b, right, _, osb, osr, s₁, s₂, rfl, hfirst.cons hleft, htours⟩
    | none =>
      rw [hrest, Option.none_or] at hp
      exact ⟨[], c, cs, [], _, os₂, seen, seen₁, rfl, .nil, hfirst, rest, hp, hrest⟩

/-- The class that declares a field last in a walk from one class; it is this class if it declares
the field. -/
theorem Tours.exists_declaring {seen seen' : Visited} {b : ClassDecl} {os : List ClassDecl}
    (h : Tours classes r seen [b] os seen') (hp : lastDeclaration? os f = some p) :
    ∃ w ∈ os, w.lastProperty? f = some p ∧
      (f ∈ b.properties.map PropertyDecl.name → w = b) := by
  by_cases hb : b.key ∈ seen
  · cases h with
    | pass _ hnil =>
      cases hnil
      cases hp
    | enter hnot _ _ _ => exact (hnot hb).elim
  · obtain ⟨bs, os', -, rfl, -⟩ := h.exists_below hb
    rw [lastDeclaration?_append, lastDeclaration?_singleton] at hp
    cases hown : b.lastProperty? f with
    | some q =>
      rw [hown] at hp
      cases hp
      exact ⟨b, by simp, hown, fun _ => rfl⟩
    | none =>
      rw [hown, Option.none_or] at hp
      obtain ⟨before, w, behind, rfl, hw, -⟩ := exists_of_lastDeclaration? hp
      refine ⟨w, by simp, hw, fun hdeclares => ?_⟩
      exact (ClassDecl.lastProperty?_ne_none hdeclares hown).elim

/-- A field that a class does not declare has the declaration that comes with one of its bases. -/
theorem exists_comesWith {bs os : List ClassDecl} {seen' : Visited}
    (hkeys : KeysTellApart classes r k) (hacyclic : Acyclic classes r k)
    (hbs : (r.projectBases k).answer classes = .ok bs)
    (h : Tours classes r [k.key] bs os seen') (hnone : k.lastProperty? f = none)
    (hp : lastDeclaration? os f = some p) :
    ∃ left b right w, bs = left ++ b :: right ∧ w.lastProperty? f = some p ∧
      ComesWith classes r left b right f w := by
  obtain ⟨left, b, right, osl, osb, osr, s₁, s₂, rfl, hleft, hmid, hright, hpb, hpr⟩ :=
    h.exists_last hp
  obtain ⟨w, hw, hpw, hown⟩ := hmid.exists_declaring hpb
  have hbase (a : ClassDecl) (ha : a ∈ left ++ b :: right) : IsBase classes r k a := ⟨_, hbs, ha⟩
  have hkbases (a : ClassDecl) (ha : a ∈ left ++ b :: right) : Reaches classes r k a :=
    .single (hbase a ha)
  have hsettled (a : ClassDecl) (ha : a ∈ left ++ b :: right) :
      Tours.Settled classes r [k.key] a :=
    Tours.Settled.mark hkeys hacyclic .refl (fun _ _ hmem => (List.not_mem_nil hmem).elim)
      (hbase a ha)
  have hkleft (a : ClassDecl) (ha : a ∈ left) := hkbases a (by simp [ha])
  have hkb : ∀ a ∈ [b], Reaches classes r k a :=
    List.forall_mem_singleton.2 (hkbases b (by simp))
  have hkright (a : ClassDecl) (ha : a ∈ right) := hkbases a (by simp [ha])
  have hsettled₂ (a : ClassDecl) (ha : a ∈ right) : Tours.Settled classes r s₂ a :=
    ((hsettled a (by simp [ha])).after hkeys (hkright a ha) hkleft hleft).after hkeys
      (hkright a ha) hkb hmid
  refine ⟨left, b, right, w, rfl, hpw, ?_, fun a ha hreach => ?_, fun a ha c hc hdeclares => ?_,
    hown⟩
  · obtain ⟨s, hs, hreach⟩ := hmid.reached w hw
    exact List.mem_singleton.1 hs ▸ hreach
  · -- all that the bases before reach is marked when the walk from this base starts
    refine hmid.fresh w hw ?_
    exact hleft.marks_reached hkeys hkleft (fun s hs => hsettled s (by simp [hs])) ha hreach
  · have hkc : Reaches classes r k c := (hkright a ha).trans hc
    -- one of the three walks marked the class, and the last one finishes no declaration
    have hmarked := hright.marks_reached hkeys hkright hsettled₂ ha hc
    obtain hmarked | hmem := hright.mem_seen_or_mem hkeys hkright hkc hmarked
    · obtain hmarked | hmem := hmid.mem_seen_or_mem hkeys hkb hkc hmarked
      · obtain hmarked | hmem := hleft.mem_seen_or_mem hkeys hkleft hkc hmarked
        · rw [hkeys hkc .refl (List.mem_singleton.1 hmarked)] at hdeclares
          exact (ClassDecl.lastProperty?_ne_none hdeclares hnone).elim
        · obtain ⟨s, hs, hreach⟩ := hleft.reached c hmem
          exact ⟨s, List.mem_append_left _ hs, hreach⟩
      · obtain ⟨s, hs, hreach⟩ := hmid.reached c hmem
        exact ⟨s, List.mem_append_right _ hs, hreach⟩
    · have hlast := isSome_lastDeclaration?_iff.2 ⟨c, hmem, hdeclares⟩
      rw [hpr] at hlast
      cases hlast

end PayloadRules

open PayloadRules

/-- For a class with a linearization, the fields are found.  A field has the first declaration of
the linearization if one class that declares it inherits from all others that do.  A field that the
class does not declare itself comes with one of its bases: with the last one that reaches a class
declaring it that no base before reaches, and with its own declaration if it has one. -/
theorem fields_follow_last_base (T : ClassTable) (r : PayloadRules) {k : ClassDecl}
    {order : List ClassDecl} (hk : T.Identifies k) (horder : Linearizes T.classes r k order) :
    ∃ fields, (r.fields (T.limit + 1) k).answer T.classes = .ok fields ∧
      ∀ f p, fields.get? f = some p →
        (∀ m, Reaches T.classes r k m → f ∈ m.properties.map PropertyDecl.name →
          (∀ c, Reaches T.classes r k c → f ∈ c.properties.map PropertyDecl.name →
            Reaches T.classes r m c) →
          order.findSome? (·.lastProperty? f) = some p) ∧
        (k.lastProperty? f = none → ∃ left b right w,
          (r.projectBases k).answer T.classes = .ok (left ++ b :: right) ∧
          w.lastProperty? f = some p ∧ ComesWith T.classes r left b right f w) := by
  have hkeys : KeysTellApart T.classes r k := hk.keysTellApart r
  have hmeets := tours_fields (r := r) (T.suffices_limit.with_any k)
  obtain ⟨fields, hfields, hnodup, os, seen', htour, hlast⟩ := hmeets.exists_ok horder.not_basesFail
  have hresolves := resolves_of_tour hkeys hnodup htour hlast
  refine ⟨fields, hfields, fun f p hp => ⟨fun m hm hdeclares hall => ?_, fun hnone => ?_⟩⟩
  · obtain ⟨w, hw, hpw, hchosen⟩ := hresolves.chosen f p hp
    have hmw := hall w hw (ClassDecl.declares_of_lastProperty? hpw)
    -- no class that declares the field inherits from the one that wins, so this is the one
    rcases Relation.reflTransGen_iff_eq_or_transGen.1 hmw with rfl | hmw
    · exact horder.findSome?_eq hw hpw hall
    · exact (hchosen horder.acyclic m hm hdeclares hmw).elim
  · obtain ⟨bs, os', hbs, rfl, hbelow⟩ := htour.exists_below List.not_mem_nil
    rw [hlast, lastDeclaration?_append, lastDeclaration?_singleton, hnone, Option.none_or] at hp
    obtain ⟨left, b, right, w, rfl, hpw, hcomes⟩ :=
      exists_comesWith hkeys horder.acyclic hbs hbelow hnone hp
    exact ⟨left, b, right, w, hbs, hpw, hcomes⟩

/-- Two bases that declare one field. -/
def siblings : String :=
  "class A:\n    x: int\nclass B:\n    x: str\nclass C(A, B): 0\n"

end

/-- The base that is listed first is the first one of the linearization that declares the field, and
the field is found with the declaration of the other base. -/
theorem exists_siblings :
    let rules : PayloadRules := ⟨5, ["BaseModel"], ["Enum"]⟩
    ∃ u k a b fields p q, (SourceUnit.ofText ⟨"/", ["m.py"]⟩ siblings).toOption = some u ∧
      u.findClass? "C" = some k ∧
      PayloadRules.Linearizes u.classTable.classes rules k [k, a, b] ∧
      k.lastProperty? "x" = none ∧ a.lastProperty? "x" = some p ∧ p.owner.name = "A" ∧
      (rules.fields (u.classTable.limit + 1) k).answer u.classTable.classes = .ok fields ∧
      fields.get? "x" = some q ∧ q.owner.name = "B" := by
  intro rules
  have hchecked : ((SourceUnit.ofText ⟨"/", ["m.py"]⟩ siblings).toOption.any fun u =>
      (u.findClass? "C").any fun k => (k.lastProperty? "x").isNone &&
        ((rules.projectBases k).answer u.classTable.classes).toOption.any (fun bs =>
          decide (bs.map ClassDecl.name = ["A", "B"]) &&
          bs.all (fun b =>
            ((rules.projectBases b).answer u.classTable.classes).toOption.any List.isEmpty) &&
          bs.head?.any fun a => (a.lastProperty? "x").any (·.owner.name == "A")) &&
        ((rules.fields (u.classTable.limit + 1) k).answer u.classTable.classes).toOption.any
          fun fields => (fields.get? "x").any (·.owner.name == "B")) = true := by
    decide +kernel
  obtain ⟨u, hu, hchecked⟩ := (Option.any_eq_true _ _).1 hchecked
  obtain ⟨k, hk, hchecked⟩ := (Option.any_eq_true _ _).1 hchecked
  simp only [Bool.and_eq_true, Option.isNone_iff_eq_none] at hchecked
  obtain ⟨⟨hnone, hbases⟩, hfields⟩ := hchecked
  obtain ⟨bs, hbs, hbases⟩ := exists_ok_of_any hbases
  simp only [Bool.and_eq_true, decide_eq_true_eq, List.all_eq_true] at hbases
  obtain ⟨⟨hnames, hends⟩, hfirst⟩ := hbases
  have hlast (b : ClassDecl) (hb : b ∈ bs) :
      (rules.projectBases b).answer u.classTable.classes = .ok [] := by
    obtain ⟨bs', hbs', hempty⟩ := exists_ok_of_any (hends b hb)
    rw [hbs', List.isEmpty_iff.1 hempty]
  obtain ⟨a, bs, rfl, ha, htail⟩ := List.map_eq_cons_iff.1 hnames
  obtain ⟨b, bs, rfl, hb, htail⟩ := List.map_eq_cons_iff.1 htail
  cases List.map_eq_nil_iff.1 htail
  rw [List.head?_cons, Option.any_some] at hfirst
  obtain ⟨p, hp, hpowner⟩ := (Option.any_eq_true _ _).1 hfirst
  obtain ⟨fields, hanswer, hfields⟩ := exists_ok_of_any hfields
  obtain ⟨q, hq, hqowner⟩ := (Option.any_eq_true _ _).1 hfields
  have hne : a ≠ b := by
    rintro rfl
    exact absurd (ha.symm.trans hb) (by decide)
  exact ⟨u, k, a, b, fields, p, q, hu, hk,
    .of_two_bases hbs (hlast a (by simp)) (hlast b (by simp)) hne, hnone, hp,
    beq_iff_eq.1 hpowner, hanswer, hq, beq_iff_eq.1 hqowner⟩

/-- A field that both bases declare comes with one of them. -/
theorem fields_follow_last_base_siblings :
    let rules : PayloadRules := ⟨5, ["BaseModel"], ["Enum"]⟩
    ∃ u k order fields p left b right w,
      (SourceUnit.ofText ⟨"/", ["m.py"]⟩ siblings).toOption = some u ∧
      u.classTable.Identifies k ∧
      PayloadRules.Linearizes u.classTable.classes rules k order ∧
      (rules.fields (u.classTable.limit + 1) k).answer u.classTable.classes = .ok fields ∧
      fields.get? "x" = some p ∧ p.owner.name = "B" ∧
      (rules.projectBases k).answer u.classTable.classes = .ok (left ++ b :: right) ∧
      w.lastProperty? "x" = some p ∧
      PayloadRules.ComesWith u.classTable.classes rules left b right "x" w := by
  intro rules
  obtain ⟨u, k, a, b, fields, -, q, hu, hk, hlin, hnone, -, -, hanswer, hq, howner⟩ :=
    exists_siblings
  have hidentifies : u.classTable.Identifies k := ClassTable.identifies_of_findClass? hk
  obtain ⟨fields', hfields', hresolved⟩ :=
    fields_follow_last_base u.classTable rules hidentifies hlin
  cases hanswer.symm.trans hfields'
  obtain ⟨left, b', right, w, hbs, hw, hcomes⟩ := (hresolved "x" q hq).2 hnone
  exact ⟨u, k, _, fields, q, left, b', right, w, hu, hidentifies, hlin, hanswer, hq, howner, hbs,
    hw, hcomes⟩

/-- The fields do not follow the linearization: it starts with the class and the base that is listed
first, and the declaration of this base is not the one that is found. -/
theorem fields_siblings_ne_linearization :
    let rules : PayloadRules := ⟨5, ["BaseModel"], ["Enum"]⟩
    ∃ u k order fields p q, (SourceUnit.ofText ⟨"/", ["m.py"]⟩ siblings).toOption = some u ∧
      u.findClass? "C" = some k ∧
      PayloadRules.Linearizes u.classTable.classes rules k order ∧
      order.findSome? (·.lastProperty? "x") = some p ∧
      (rules.fields (u.classTable.limit + 1) k).answer u.classTable.classes = .ok fields ∧
      fields.get? "x" = some q ∧ q ≠ p := by
  intro rules
  obtain ⟨u, k, a, b, fields, p, q, hu, hk, hlin, hnone, hp, hpowner, hanswer, hq, hqowner⟩ :=
    exists_siblings
  refine ⟨u, k, _, fields, p, q, hu, hk, hlin, by simp [hnone, hp], hanswer, hq, ?_⟩
  rintro rfl
  exact absurd (hpowner.symm.trans hqowner) (by decide)

end RouteLens
