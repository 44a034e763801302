import Mathlib.Data.Finset.Card
import RouteLens.Payload.Synthesis

/-!
# The limit of visits

Payload synthesis follows the bases of a class up to a limit.  Every limit that is at least the
number of classes in reach gives the same answers: each visit marks a class that was not marked
before, so that the limit is never used up before everything in reach is marked.
-/

namespace RouteLens

variable {edition : Nat} [CharacterNames edition]

namespace PayloadRules

variable {α : Type} {classes : String → List ClassDecl}

/-- A class that a name leads to. -/
def InReach (classes : String → List ClassDecl) (c : ClassDecl) : Prop :=
  ∃ name, (classes name).head? = some c

/-- The keys of the classes in reach are among some keys. -/
def Covers (keys : Finset (Path × Nat)) (classes : String → List ClassDecl) : Prop :=
  ∀ c, InReach classes c → c.key ∈ keys

/-- How many keys have not been visited. -/
def unvisited (keys : Finset (Path × Nat)) (seen : Visited) : Nat :=
  (keys.filter (· ∉ seen)).card

section Unvisited

variable {keys : Finset (Path × Nat)} {seen seen' : Visited} {key : Path × Nat}

theorem unvisited_nil : unvisited keys [] = keys.card := by
  simp [unvisited]

theorem unvisited_le_of_subset (h : seen ⊆ seen') : unvisited keys seen' ≤ unvisited keys seen :=
  Finset.card_le_card fun k hk => by
    rw [Finset.mem_filter] at hk ⊢
    exact ⟨hk.1, fun hmem => hk.2 (h hmem)⟩

theorem unvisited_cons_lt (hkey : key ∈ keys) (h : key ∉ seen) :
    unvisited keys (key :: seen) < unvisited keys seen := by
  refine Finset.card_lt_card ⟨fun k hk => ?_, fun hsub => ?_⟩
  · rw [Finset.mem_filter] at hk ⊢
    exact ⟨hk.1, fun hmem => hk.2 (List.mem_cons_of_mem _ hmem)⟩
  · have hmem := hsub (Finset.mem_filter.2 ⟨hkey, h⟩)
    exact (Finset.mem_filter.1 hmem).2 List.mem_cons_self

end Unvisited

/-! ## Visits -/

/-- A visit of a class, given what was visited before it. -/
abbrev Visit (α : Type) := ClassDecl → Visited → Inquiry (α × Visited)

/-- A visit forgets nothing that was visited before it. -/
def Grows (classes : String → List ClassDecl) (visit : Visit α) : Prop :=
  ∀ {c seen a seen'}, (visit c seen).answer classes = .ok (a, seen') → seen ⊆ seen'

/-- Two visits come to the same wherever at most `n` keys have not been visited. -/
def SameWithin (classes : String → List ClassDecl) (keys : Finset (Path × Nat)) (n : Nat)
    (f g : Visit α) : Prop :=
  ∀ c seen, InReach classes c → unvisited keys seen ≤ n →
    (f c seen).answer classes = (g c seen).answer classes

section AnyVisited

variable {f g : Visit Bool} {cs : List ClassDecl} {seen seen' : Visited}

theorem anyVisited_subset (hf : Grows classes f) {b : Bool}
    (h : (anyVisited f cs seen).answer classes = .ok (b, seen')) : seen ⊆ seen' := by
  induction cs generalizing seen with
  | nil =>
    cases h
    exact List.Subset.refl _
  | cons c cs ih =>
    simp only [anyVisited, Inquiry.answer_seq] at h
    obtain ⟨⟨found, seen₁⟩, hc, h⟩ := bind_eq_ok_iff.1 h
    cases found with
    | true =>
      cases h
      exact hf hc
    | false => exact List.Subset.trans (hf hc) (ih h)

/-- A search over classes does not depend on a limit that suffices. -/
theorem anyVisited_congr {keys : Finset (Path × Nat)} {n : Nat} (hf : Grows classes f)
    (hfg : SameWithin classes keys n f g) (hcs : ∀ c ∈ cs, InReach classes c)
    (hseen : unvisited keys seen ≤ n) :
    (anyVisited f cs seen).answer classes = (anyVisited g cs seen).answer classes := by
  induction cs generalizing seen with
  | nil => rfl
  | cons c cs ih =>
    simp only [anyVisited, Inquiry.answer_seq]
    rw [← hfg c seen (hcs c List.mem_cons_self) hseen]
    cases hc : (f c seen).answer classes with
    | error e => rfl
    | ok x =>
      obtain ⟨found, seen₁⟩ := x
      cases found with
      | true => rfl
      | false =>
        exact ih (fun c hc => hcs c (List.mem_cons_of_mem _ hc))
          ((unvisited_le_of_subset (hf hc)).trans hseen)

end AnyVisited

section MergeVisited

variable {f g : Visit (Ordered PropertyDecl)} {cs : List ClassDecl}
  {done done' : Ordered PropertyDecl} {seen seen' : Visited}

theorem mergeVisited_subset (hf : Grows classes f)
    (h : (mergeVisited f cs done seen).answer classes = .ok (done', seen')) : seen ⊆ seen' := by
  induction cs generalizing done seen with
  | nil =>
    cases h
    exact List.Subset.refl _
  | cons c cs ih =>
    simp only [mergeVisited, Inquiry.answer_seq] at h
    obtain ⟨⟨found, seen₁⟩, hc, h⟩ := bind_eq_ok_iff.1 h
    exact List.Subset.trans (hf hc) (ih h)

theorem mergeVisited_congr {keys : Finset (Path × Nat)} {n : Nat} (hf : Grows classes f)
    (hfg : SameWithin classes keys n f g) (hcs : ∀ c ∈ cs, InReach classes c)
    (hseen : unvisited keys seen ≤ n) :
    (mergeVisited f cs done seen).answer classes =
      (mergeVisited g cs done seen).answer classes := by
  induction cs generalizing done seen with
  | nil => rfl
  | cons c cs ih =>
    simp only [mergeVisited, Inquiry.answer_seq]
    rw [← hfg c seen (hcs c List.mem_cons_self) hseen]
    cases hc : (f c seen).answer classes with
    | error e => rfl
    | ok x =>
      exact ih (fun c hc => hcs c (List.mem_cons_of_mem _ hc))
        ((unvisited_le_of_subset (hf hc)).trans hseen)

end MergeVisited

/-! ## Bases and fields -/

variable {r : PayloadRules} {names : List String} {c : ClassDecl}

/-- Bases that are found are in reach. -/
theorem inReach_of_mem_findBases {bs : List ClassDecl}
    (h : (findBases c names).answer classes = .ok bs) : ∀ b ∈ bs, InReach classes b := by
  induction names generalizing bs with
  | nil =>
    cases h
    simp
  | cons n ns ih =>
    simp only [findBases, Inquiry.answer_seq, Inquiry.answer_findClass, ok_bind] at h
    obtain ⟨rest, hrest, h⟩ := bind_eq_ok_iff.1 h
    cases hn : (classes n).head? with
    | none =>
      rw [hn] at h
      cases h
      exact ih hrest
    | some b =>
      rw [hn] at h
      by_cases hkey : b.key = c.key
      · simp only [hkey, if_true, Inquiry.answer_pure, Except.ok.injEq] at h
        exact h ▸ ih hrest
      · simp only [hkey, if_false, Inquiry.answer_pure, Except.ok.injEq] at h
        subst h
        exact List.forall_mem_cons.2 ⟨⟨n, hn⟩, ih hrest⟩

theorem inReach_of_mem_projectBases {bs : List ClassDecl}
    (h : (r.projectBases c).answer classes = .ok bs) : ∀ b ∈ bs, InReach classes b := by
  simp only [projectBases, Inquiry.answer_seq, Inquiry.answer_lift] at h
  obtain ⟨_, -, h⟩ := bind_eq_ok_iff.1 h
  exact inReach_of_mem_findBases h

/-- The search for a base forgets no visit. -/
theorem grows_hasBaseFrom (limit : Nat) : Grows classes (r.hasBaseFrom names limit) := by
  induction limit with
  | zero =>
    intro c seen b seen' h
    cases h
    exact List.Subset.refl _
  | succ limit ih =>
    intro c seen b seen' h
    unfold hasBaseFrom at h
    by_cases hc : seen.contains c.key
    · rw [if_pos hc] at h
      cases h
      exact List.Subset.refl _
    · rw [if_neg hc] at h
      simp only [Inquiry.answer_seq, Inquiry.answer_lift] at h
      obtain ⟨bases, -, h⟩ := bind_eq_ok_iff.1 h
      refine List.Subset.trans (List.subset_cons_self c.key seen) ?_
      by_cases hany : bases.any names.contains
      · rw [if_pos hany] at h
        cases h
        exact List.Subset.refl _
      · rw [if_neg hany, Inquiry.answer_seq] at h
        obtain ⟨bs, -, h⟩ := bind_eq_ok_iff.1 h
        exact anyVisited_subset ih h

/-- The search for fields forgets no visit. -/
theorem grows_fieldsFrom (limit : Nat) : Grows classes (r.fieldsFrom limit) := by
  induction limit with
  | zero =>
    intro c seen fields seen' h
    cases h
    exact List.Subset.refl _
  | succ limit ih =>
    intro c seen fields seen' h
    unfold fieldsFrom at h
    by_cases hc : seen.contains c.key
    · rw [if_pos hc] at h
      cases h
      exact List.Subset.refl _
    · rw [if_neg hc] at h
      simp only [Inquiry.answer_seq] at h
      obtain ⟨bs, -, h⟩ := bind_eq_ok_iff.1 h
      obtain ⟨⟨inherited, seen₁⟩, hmerge, h⟩ := bind_eq_ok_iff.1 h
      cases h
      exact List.Subset.trans (List.subset_cons_self c.key seen) (mergeVisited_subset ih hmerge)

section Limits

variable {keys : Finset (Path × Nat)} {n limit limit' : Nat}

/-- A walk marks a class that was not marked before, so that what holds wherever a marked class is
passed over, and is handed on when a class is marked, holds of every class with enough left of the
limit. -/
theorem visit_induction {P : Nat → ClassDecl → Visited → Prop}
    (hpass : ∀ {n c seen}, c.key ∈ seen → P n c seen)
    (hstep : ∀ {n c seen}, c.key ∉ seen → unvisited keys (c.key :: seen) ≤ n →
      (∀ b seen', b.key ∈ keys → unvisited keys seen' ≤ n → P n b seen') → P (n + 1) c seen)
    (n : Nat) : ∀ c seen, c.key ∈ keys → unvisited keys seen ≤ n → P n c seen := by
  induction n with
  | zero =>
    intro c seen hc hseen
    refine hpass (Decidable.byContradiction fun hmem => ?_)
    have hless := unvisited_cons_lt hc hmem
    omega
  | succ n ih =>
    intro c seen hc hseen
    by_cases hmem : c.key ∈ seen
    · exact hpass hmem
    · exact hstep hmem (Nat.le_of_lt_succ ((unvisited_cons_lt hc hmem).trans_le hseen)) ih

/-- Limits that are not below the number of unvisited keys make no difference to a visit that passes
over visited classes and otherwise uses a smaller limit after marking the class. -/
theorem sameWithin_of_step {visit : Nat → Visit α} (hkeys : Covers keys classes)
    (hpass : ∀ limit limit' c seen, c.key ∈ seen →
      (visit limit c seen).answer classes = (visit limit' c seen).answer classes)
    (hstep : ∀ {n limit limit' c seen}, c.key ∉ seen → unvisited keys (c.key :: seen) ≤ n →
      SameWithin classes keys n (visit limit) (visit limit') →
      (visit (limit + 1) c seen).answer classes = (visit (limit' + 1) c seen).answer classes)
    (h : n ≤ limit) (h' : n ≤ limit') :
    SameWithin classes keys n (visit limit) (visit limit') := by
  intro c seen hc hseen
  refine visit_induction (P := fun n c seen => ∀ limit limit', n ≤ limit → n ≤ limit' →
    (visit limit c seen).answer classes = (visit limit' c seen).answer classes)
    (fun hmem _ _ _ _ => hpass _ _ _ _ hmem) (fun {n c seen} hmem hless ih limit limit' h h' => ?_)
    n c seen (hkeys c hc) hseen limit limit' h h'
  obtain ⟨limit, rfl⟩ := Nat.exists_eq_succ_of_ne_zero (Nat.ne_zero_of_lt h)
  obtain ⟨limit', rfl⟩ := Nat.exists_eq_succ_of_ne_zero (Nat.ne_zero_of_lt h')
  exact hstep hmem hless fun b seen' hb hseen' => ih b seen' (hkeys b hb) hseen' limit limit'
    (Nat.le_of_succ_le_succ h) (Nat.le_of_succ_le_succ h')

theorem hasBaseFrom_of_mem {seen : Visited} (h : c.key ∈ seen) (limit : Nat) :
    r.hasBaseFrom names limit c seen = pure (false, seen) := by
  cases limit with
  | zero => rfl
  | succ limit => rw [hasBaseFrom, if_pos (by simpa using h)]

theorem fieldsFrom_of_mem {seen : Visited} (h : c.key ∈ seen) (limit : Nat) :
    r.fieldsFrom limit c seen = pure ([], seen) := by
  cases limit with
  | zero => rfl
  | succ limit => rw [fieldsFrom, if_pos (by simpa using h)]

theorem sameWithin_hasBaseFrom (hkeys : Covers keys classes) (h : n ≤ limit) (h' : n ≤ limit') :
    SameWithin classes keys n (r.hasBaseFrom names limit) (r.hasBaseFrom names limit') := by
  refine sameWithin_of_step hkeys (fun limit limit' c seen hmem => ?_) ?_ h h'
  · rw [hasBaseFrom_of_mem hmem, hasBaseFrom_of_mem hmem]
  · intro n limit limit' c seen hmem hless ih
    have hnot : ¬ seen.contains c.key = true := by simpa using hmem
    simp only [hasBaseFrom, if_neg hnot, Inquiry.answer_seq]
    refine bind_congr fun bases => ?_
    by_cases hany : bases.any names.contains
    · simp only [if_pos hany]
    · simp only [if_neg hany, Inquiry.answer_seq]
      cases hbs : (r.projectBases c).answer classes with
      | error e => rfl
      | ok bs =>
        exact anyVisited_congr (grows_hasBaseFrom limit) ih (inReach_of_mem_projectBases hbs) hless

theorem sameWithin_fieldsFrom (hkeys : Covers keys classes) (h : n ≤ limit) (h' : n ≤ limit') :
    SameWithin classes keys n (r.fieldsFrom limit) (r.fieldsFrom limit') := by
  refine sameWithin_of_step hkeys (fun limit limit' c seen hmem => ?_) ?_ h h'
  · rw [fieldsFrom_of_mem hmem, fieldsFrom_of_mem hmem]
  · intro n limit limit' c seen hmem hless ih
    have hnot : ¬ seen.contains c.key = true := by simpa using hmem
    simp only [fieldsFrom, if_neg hnot, Inquiry.answer_seq]
    cases hbs : (r.projectBases c).answer classes with
    | error e => rfl
    | ok bs =>
      simp only [ok_bind]
      rw [mergeVisited_congr (grows_fieldsFrom limit) ih (inReach_of_mem_projectBases hbs) hless]

/-! ## Payloads -/

/-- A limit is at least the number of classes in reach. -/
def Suffices (classes : String → List ClassDecl) (limit : Nat) : Prop :=
  ∃ keys, Covers keys classes ∧ keys.card ≤ limit

theorem Suffices.mono (h : Suffices classes limit) (hle : limit ≤ limit') :
    Suffices classes limit' := by
  obtain ⟨keys, hkeys, hcard⟩ := h
  exact ⟨keys, hkeys, hcard.trans hle⟩

/-- A limit is at least the number of classes in reach, one more class included. -/
def SufficesWith (classes : String → List ClassDecl) (c : ClassDecl) (limit : Nat) : Prop :=
  ∃ keys, Covers keys classes ∧ c.key ∈ keys ∧ keys.card ≤ limit

theorem Suffices.with_inReach (h : Suffices classes limit) (hc : InReach classes c) :
    SufficesWith classes c limit := by
  obtain ⟨keys, hkeys, hcard⟩ := h
  exact ⟨keys, hkeys, hkeys c hc, hcard⟩

theorem Suffices.with_any (h : Suffices classes limit) (c : ClassDecl) :
    SufficesWith classes c (limit + 1) := by
  obtain ⟨keys, hkeys, hcard⟩ := h
  refine ⟨insert c.key keys, fun b hb => ?_, Finset.mem_insert_self _ _, ?_⟩
  · exact Finset.mem_insert_of_mem (hkeys b hb)
  · exact (Finset.card_insert_le _ _).trans (Nat.succ_le_succ hcard)

theorem exists_common_keys (h : Suffices classes limit) (h' : Suffices classes limit') :
    ∃ keys, Covers keys classes ∧ keys.card ≤ limit ∧ keys.card ≤ limit' := by
  obtain ⟨keys, hkeys, hcard⟩ := h
  obtain ⟨keys', hkeys', hcard'⟩ := h'
  exact ⟨keys ∩ keys', fun c hc => Finset.mem_inter.2 ⟨hkeys c hc, hkeys' c hc⟩,
    (Finset.card_le_card Finset.inter_subset_left).trans hcard,
    (Finset.card_le_card Finset.inter_subset_right).trans hcard'⟩

section Payloads

variable (h : Suffices classes limit) (h' : Suffices classes limit')
include h h'

theorem hasBase_congr (hc : InReach classes c) :
    (r.hasBase limit names c).answer classes = (r.hasBase limit' names c).answer classes := by
  obtain ⟨keys, hkeys, hcard, hcard'⟩ := exists_common_keys h h'
  simp only [hasBase, Inquiry.answer_seq]
  rw [sameWithin_hasBaseFrom hkeys hcard hcard' c [] hc unvisited_nil.le]

theorem fields_congr (hc : InReach classes c) :
    (r.fields limit c).answer classes = (r.fields limit' c).answer classes := by
  obtain ⟨keys, hkeys, hcard, hcard'⟩ := exists_common_keys h h'
  simp only [fields, Inquiry.answer_seq]
  rw [sameWithin_fieldsFrom hkeys hcard hcard' c [] hc unvisited_nil.le]

theorem isStructured_congr (hc : InReach classes c) :
    (r.isStructured limit c).answer classes = (r.isStructured limit' c).answer classes := by
  simp only [isStructured, isEnum, Inquiry.answer_seq]
  rw [hasBase_congr h h' hc]
  refine bind_congr fun isEnum => ?_
  cases isEnum with
  | true => rfl
  | false =>
    by_cases hfields : (c.decoratorNames.contains "dataclass" || !c.properties.isEmpty) = true
    · simp only [if_pos hfields]
    · simp only [if_neg hfields]
      exact hasBase_congr h h' hc

theorem enumValue?_congr {target : Option ClassDecl} (htarget : ∀ c ∈ target, InReach classes c) :
    (r.enumValue? limit target).answer classes = (r.enumValue? limit' target).answer classes := by
  cases target with
  | none => rfl
  | some c =>
    have hc := htarget c rfl
    simp only [enumValue?, isEnum, Inquiry.answer_seq]
    rw [hasBase_congr h h' hc]
    refine bind_congr fun isEnum => ?_
    cases isEnum with
    | false => rfl
    | true =>
      simp only [if_true, firstValue?, Inquiry.answer_seq]
      rw [hasBase_congr h h' hc]

end Payloads

theorem inReach_of_referenced {f : FieldFacts} {target : Option ClassDecl}
    (h : (referenced f).answer classes = .ok target) : ∀ c ∈ target, InReach classes c := by
  rintro c rfl
  unfold referenced at h
  split at h
  · rename_i name _
    by_cases hn : name.isEmpty
    · rw [if_pos hn] at h
      cases h
    · rw [if_neg hn, Inquiry.answer_findClass] at h
      exact ⟨name, Except.ok.inj h⟩
  · cases h

/-- Two ways to build nested classes come to the same for the classes in reach. -/
def SameNested (classes : String → List ClassDecl) (nested nested' : ClassDecl → Inquiry α) :
    Prop :=
  ∀ c, InReach classes c → (nested c).answer classes = (nested' c).answer classes

theorem times_congr {q q' : Inquiry α} (hq : q.answer classes = q'.answer classes) (n : Nat) :
    (times q n).answer classes = (times q' n).answer classes := by
  induction n with
  | zero => rfl
  | succ n ih => simp only [times, Inquiry.answer_seq, hq, ih]

section Parts

variable {a : Assembly α} {nested nested' : ClassDecl → Inquiry α}

theorem classPart_congr (h : Suffices classes limit) (h' : Suffices classes limit')
    (hnested : SameNested classes nested nested') {f : FieldFacts} {target : Option ClassDecl}
    (htarget : ∀ c ∈ target, InReach classes c) :
    (r.classPart a limit nested f target).answer classes =
      (r.classPart a limit' nested' f target).answer classes := by
  cases target with
  | none => rfl
  | some c =>
    have hc := htarget c rfl
    simp only [classPart, Inquiry.answer_seq]
    rw [isStructured_congr h h' hc]
    refine bind_congr fun isStructured => ?_
    cases isStructured with
    | false => rfl
    | true => exact hnested c hc

mutual

/-- A part of a payload does not depend on a limit that suffices. -/
theorem partOf_congr (h : Suffices classes limit) (h' : Suffices classes limit')
    (hnested : SameNested classes nested nested') : ∀ t : FieldType,
    (r.partOf a limit nested t).answer classes = (r.partOf a limit' nested' t).answer classes
  | .mk f element fixed => by
    unfold partOf
    simp only [Inquiry.answer_seq, Inquiry.answer_lift]
    refine bind_congr fun value => ?_
    cases value with
    | some v => rfl
    | none =>
      simp only [Inquiry.answer_seq]
      cases htarget : (referenced f).answer classes with
      | error e => rfl
      | ok target =>
        have hreach := inReach_of_referenced htarget
        simp only [ok_bind]
        rw [enumValue?_congr h h' hreach]
        refine bind_congr fun value => ?_
        cases value with
        | some v => rfl
        | none =>
          by_cases harray : f.isArray
          · simp only [if_pos harray]
            cases fixed with
            | some es => simp only [Inquiry.answer_seq, elementParts_congr h h' hnested es]
            | none =>
              simp only [Inquiry.answer_seq]
              rw [times_congr (someElement_congr h h' hnested element)]
          · simp only [if_neg harray]
            exact classPart_congr h h' hnested hreach

theorem someElement_congr (h : Suffices classes limit) (h' : Suffices classes limit')
    (hnested : SameNested classes nested nested') : ∀ element : Option ElementType,
    (r.someElement a limit nested element).answer classes =
      (r.someElement a limit' nested' element).answer classes
  | none => rfl
  | some e => elementPart_congr h h' hnested e

theorem elementPart_congr (h : Suffices classes limit) (h' : Suffices classes limit')
    (hnested : SameNested classes nested nested') : ∀ e : ElementType,
    (r.elementPart a limit nested e).answer classes =
      (r.elementPart a limit' nested' e).answer classes
  | .mk _ (.ok t) => by
    simp only [elementPart, Inquiry.answer_seq, partOf_congr h h' hnested t]
  | .mk _ (.error _) => rfl

theorem elementParts_congr (h : Suffices classes limit) (h' : Suffices classes limit')
    (hnested : SameNested classes nested nested') : ∀ es : List ElementType,
    (r.elementParts a limit nested es).answer classes =
      (r.elementParts a limit' nested' es).answer classes
  | [] => rfl
  | e :: es => by
    rw [elementParts, elementParts]
    simp only [Inquiry.answer_seq, elementPart_congr h h' hnested e,
      elementParts_congr h h' hnested es]

end

theorem partsOf_congr (h : Suffices classes limit) (h' : Suffices classes limit')
    (hnested : SameNested classes nested nested') (total : Bool) (fields : Ordered PropertyDecl) :
    (r.partsOf a limit nested total fields).answer classes =
      (r.partsOf a limit' nested' total fields).answer classes := by
  induction fields with
  | nil => rfl
  | cons field fields ih =>
    obtain ⟨name, p⟩ := field
    simp only [partsOf]
    by_cases hname : Text.startsWith name "_" = true
    · simp only [if_pos hname, ih]
    · simp only [if_neg hname, Inquiry.answer_seq, Inquiry.answer_lift]
      refine bind_congr fun _ => bind_congr fun t => ?_
      by_cases hrequired : isRequired total t.facts = true
      · simp only [if_pos hrequired, Inquiry.answer_seq, partOf_congr h h' hnested, ih]
      · simp only [if_neg hrequired, ih]

theorem recordWith_congr (h : Suffices classes limit) (h' : Suffices classes limit')
    (hnested : SameNested classes nested nested') (hc : InReach classes c) :
    (r.recordWith a limit nested c).answer classes =
      (r.recordWith a limit' nested' c).answer classes := by
  simp only [recordWith, Inquiry.answer_seq, fields_congr h h' hc, partsOf_congr h h' hnested]

/-- Sufficient limits give the same records. -/
theorem sameNested_recordAt (h : Suffices classes limit) (h' : Suffices classes limit')
    (depth maxDepth : Int) :
    SameNested classes (r.recordAt a limit depth maxDepth)
      (r.recordAt a limit' depth maxDepth) := by
  intro c hc
  rw [recordAt, recordAt]
  refine recordWith_congr h h' (fun n hn => ?_) hc
  by_cases hdepth : maxDepth ≤ depth
  · simp only [if_pos hdepth]
  · simp only [if_neg hdepth]
    exact sameNested_recordAt h h' (depth + 1) maxDepth n hn
termination_by (maxDepth - depth).toNat
decreasing_by omega

end Parts

/-- Sufficient limits give the same payloads. -/
theorem sameNested_payload (h : Suffices classes limit) (h' : Suffices classes limit')
    (depth maxDepth : Int) :
    SameNested classes (r.payload limit depth maxDepth) (r.payload limit' depth maxDepth) :=
  sameNested_recordAt h h' depth maxDepth

end Limits

end PayloadRules

open PayloadRules

variable {classes : String → List ClassDecl} {limit limit' : Nat}

theorem synthesize_congr (h : Suffices classes limit) (h' : Suffices classes limit')
    (r : PayloadRules) (className : String) (maxDepth : Option Int) :
    (synthesize r limit className maxDepth).answer classes =
      (synthesize r limit' className maxDepth).answer classes := by
  simp only [synthesize, Inquiry.answer_seq, Inquiry.answer_findClass, ok_bind]
  cases hc : (classes className).head? with
  | none => rfl
  | some c =>
    simp only [Inquiry.answer_seq]
    rw [sameNested_payload h h' _ _ c ⟨className, hc⟩]

/-- The payloads of a handler do not depend on a limit that suffices. -/
theorem paramPayloads_congr (h : Suffices classes limit) (h' : Suffices classes limit')
    (r : PayloadRules) (params : List ParamDecl) (done : Ordered Value) :
    (paramPayloads r limit params done).answer classes =
      (paramPayloads r limit' params done).answer classes := by
  induction params generalizing done with
  | nil => rfl
  | cons p params ih =>
    simp only [paramPayloads, Inquiry.answer_seq, Inquiry.answer_lift]
    refine bind_congr fun name => ?_
    cases name with
    | none => exact ih done
    | some n =>
      simp only [Inquiry.answer_seq, Inquiry.answer_findClass, ok_bind]
      cases hc : (classes n).head? with
      | none => exact ih done
      | some c =>
        simp only [Inquiry.answer_seq]
        rw [isStructured_congr h h' ⟨n, hc⟩]
        refine bind_congr fun isStructured => ?_
        cases isStructured with
        | false => exact ih done
        | true =>
          simp only [if_true, Inquiry.answer_seq]
          rw [sameNested_payload h h' _ _ c ⟨n, hc⟩]
          exact bind_congr fun v => ih _

theorem handlerPayloads_congr (h : Suffices classes limit) (h' : Suffices classes limit')
    (c : Config) (className methodName : String) :
    (handlerPayloads c limit className methodName).answer classes =
      (handlerPayloads c limit' className methodName).answer classes := by
  simp only [handlerPayloads, Inquiry.answer_seq]
  refine bind_congr fun found => ?_
  cases found with
  | none => rfl
  | some m => simp only [Inquiry.answer_seq, Inquiry.answer_lift, paramPayloads_congr h h']

end RouteLens
