import RouteLens.Proofs.Analysis.Constructions
import RouteLens.Proofs.Analysis.WholeRules

/-!
# Choice of the representative exception

Two things speak for an exception: an import that brings it in from a known module, and a
construction of it in the class (`Signals`).  Which of them is taken is said here by three rules
(`Chooses`): the first name of the priority list that has a signal; else the heaviest constructed
exception, and of several the one that a reader meets first; else the first imported one.  The rules
determine the choice, and there is none exactly if nothing is imported and nothing constructed.
Where a name of the priority list has a signal, the choice is a matter of the signals alone.
-/

namespace RouteLens

namespace ExceptionRules

/-! ## Imported exceptions -/

/-- Names by what the file calls them; the first one to be bound counts. -/
def aliasTable (is : List ImportedName) : Ordered ImportedName :=
  is.foldl (fun t i => t.putNew i.localName i) []

theorem aliasTable_concat (is : List ImportedName) (i : ImportedName) :
    aliasTable (is ++ [i]) = (aliasTable is).putNew i.localName i := by
  simp [aliasTable]

theorem mem_aliasTable {is : List ImportedName} {e : String × ImportedName}
    (h : e ∈ aliasTable is) : e.2 ∈ is ∧ e.1 = e.2.localName := by
  induction is using List.reverseRecOn with
  | nil => simp [aliasTable] at h
  | append_singleton is i ih =>
    rw [aliasTable_concat, Ordered.putNew] at h
    split at h
    · exact ⟨List.mem_append_left _ (ih h).1, (ih h).2⟩
    · rcases List.mem_append.1 h with h | h
      · exact ⟨List.mem_append_left _ (ih h).1, (ih h).2⟩
      · rw [List.mem_singleton.1 h]
        exact ⟨List.mem_append_right _ (List.mem_singleton_self i), rfl⟩

theorem mem_keys_aliasTable {is : List ImportedName} {k : String} :
    k ∈ (aliasTable is).keys ↔ ∃ i ∈ is, i.localName = k := by
  induction is using List.reverseRecOn with
  | nil => simp [aliasTable, Ordered.keys]
  | append_singleton is i ih =>
    rw [aliasTable_concat, Ordered.mem_keys_putNew, ih]
    simp [or_and_right, exists_or, or_comm, eq_comm]

theorem aliasTable_eq_nil_iff {is : List ImportedName} : aliasTable is = [] ↔ is = [] := by
  induction is using List.reverseRecOn with
  | nil => simp [aliasTable]
  | append_singleton is i ih =>
    rw [aliasTable_concat, Ordered.putNew]
    split
    · rename_i hkey
      have hne : aliasTable is ≠ [] := by
        rintro hnil
        simp [hnil, Ordered.hasKey] at hkey
      simp [hne]
    · simp

variable (r : ExceptionRules)

/-- An import brings in an exception from a known module. -/
def BringsIn (i : ImportedName) : Prop :=
  r.isKnownModule i.module = true ∧ r.isExceptionName i.name = true

theorem importedNames_eq (u : SourceUnit) :
    r.importedNames u = aliasTable
      (u.imports.filter fun i => r.isKnownModule i.module && r.isExceptionName i.name) := by
  unfold importedNames aliasTable
  rw [List.foldl_filter]

theorem importedNames_eq_nil_iff {u : SourceUnit} :
    r.importedNames u = [] ↔ ∀ i ∈ u.imports, ¬ r.BringsIn i := by
  rw [importedNames_eq, aliasTable_eq_nil_iff, List.filter_eq_nil_iff]
  simp [BringsIn]

/-- The imported exceptions by their own names. -/
def originals (u : SourceUnit) : Ordered ImportedName :=
  Ordered.overlay [] ((r.importedNames u).map fun e => (e.2.name, e.2))

/-! ## Heaviest entries -/

/-- The heaviest entry is the first of those with the greatest weight. -/
theorem heaviest?_cons (e : String × Nat) (t : Ordered Nat) :
    ∃ before d after, heaviest? (e :: t) = some d ∧ e :: t = before ++ d :: after ∧
      (∀ x ∈ before, x.2 < d.2) ∧ ∀ x ∈ after, x.2 ≤ d.2 := by
  induction t using List.reverseRecOn with
  | nil => exact ⟨[], e, [], rfl, rfl, by simp, by simp⟩
  | append_singleton t x ih =>
    obtain ⟨before, d, after, hd, hsplit, hbefore, hafter⟩ := ih
    have hlast : heaviest? (e :: (t ++ [x])) = some (if d.2 < x.2 then x else d) := by
      simp only [heaviest?, Option.some.injEq] at hd ⊢
      rw [List.foldl_append, hd]
      rfl
    rw [hlast, ← List.cons_append, hsplit]
    by_cases hx : d.2 < x.2
    · refine ⟨before ++ d :: after, x, [], by rw [if_pos hx], rfl, fun y hy => ?_, by simp⟩
      rcases List.mem_append.1 hy with hy | hy
      · exact (hbefore y hy).trans hx
      · rcases List.mem_cons.1 hy with rfl | hy
        · exact hx
        · exact Nat.lt_of_le_of_lt (hafter y hy) hx
    · refine ⟨before, d, after ++ [x], by rw [if_neg hx], by simp, hbefore, fun y hy => ?_⟩
      rcases List.mem_append.1 hy with hy | hy
      · exact hafter y hy
      · rw [List.mem_singleton.1 hy]
        omega

theorem heaviest?_eq_none_iff {t : Ordered Nat} : heaviest? t = none ↔ t = [] := by
  cases t <;> simp [heaviest?]

/-! ## The three rules -/

variable (r : ExceptionRules) (c : ClassDecl)

/-- Something speaks for an exception: the file imports it from a known module, or the class
constructs it. -/
def Signals (name : String) : Prop :=
  (∃ e ∈ r.importedNames c.unit, e.2.name = name) ∨ name ∈ (r.classWeights c).keys

/-- A reader of a class meets a construction of the first exception before any of the second. -/
def SeenBefore (name other : String) : Prop :=
  ∃ a, r.ConstructsAt (r.importedNames c.unit) c.definition a name ∧
    ∀ b, r.ConstructsAt (r.importedNames c.unit) c.definition b other →
      Node.MetFirst Node.start? (.stmt c.stmt) a b

/-- The representative exception of a class. -/
inductive Chooses : String → Prop
  /-- No name that comes before it in the priority list has a signal. -/
  | priority {before after : List String} {n : String}
      (hlist : r.priority.texts = before ++ n :: after) (hn : r.Signals c n)
      (hbefore : ∀ m ∈ before, ¬ r.Signals c m) : Chooses n
  /-- No constructed exception is heavier, and those of the same weight come later. -/
  | heaviest {n : String} (hnone : ∀ m ∈ r.priority.texts, ¬ r.Signals c m)
      (hn : n ∈ (r.classWeights c).keys)
      (hmax : ∀ m, (r.classWeights c).weight m ≤ (r.classWeights c).weight n)
      (hseen : ∀ m ∈ (r.classWeights c).keys, m ≠ n →
        (r.classWeights c).weight m = (r.classWeights c).weight n → r.SeenBefore c n m) :
      Chooses n
  /-- Nothing is constructed, and it is imported first. -/
  | imported {e : String × ImportedName} {rest : Ordered ImportedName}
      (hnone : ∀ m ∈ r.priority.texts, ¬ r.Signals c m) (hempty : (r.classWeights c).keys = [])
      (htable : r.importedNames c.unit = e :: rest) : Chooses e.2.name

variable {r c}

theorem hasSignal_iff {n : String} :
    ((r.classWeights c).hasKey n || (r.originals c.unit).hasKey n) = true ↔ r.Signals c n := by
  rw [Bool.or_eq_true, Ordered.hasKey_iff, Ordered.hasKey_iff, originals,
    Ordered.keys_overlay_nil, or_comm, Signals]
  simp [Ordered.keys]

theorem originals_eq_nil_iff {u : SourceUnit} : r.originals u = [] ↔ r.importedNames u = [] := by
  have hkeys (t : Ordered ImportedName) : t = [] ↔ ∀ k, k ∉ t.keys := by
    rw [← List.eq_nil_iff_forall_not_mem]
    simp [Ordered.keys]
  rw [hkeys, originals]
  simp only [Ordered.keys_overlay_nil]
  rw [← hkeys, List.map_eq_nil_iff]

theorem find?_signal_eq : (r.priority.texts.find? fun n =>
      (r.classWeights c).hasKey n || (r.originals c.unit).hasKey n) = none ↔
    ∀ m ∈ r.priority.texts, ¬ r.Signals c m := by
  rw [List.find?_eq_none]
  simp only [hasSignal_iff]

theorem originals_eq (u : SourceUnit) :
    (r.importedNames u).foldl (fun t e => Ordered.put e.2.name e.2 t) [] = r.originals u := by
  rw [originals, Ordered.overlay, List.foldl_map]

/-- The first rule. -/
theorem infer_of_priority {before after : List String} {n : String}
    (hlist : r.priority.texts = before ++ n :: after) (hn : r.Signals c n)
    (hbefore : ∀ m ∈ before, ¬ r.Signals c m) : r.infer c = some ⟨n, sourceOf c.unit n⟩ := by
  have hfind : (r.priority.texts.find? fun n =>
      (r.classWeights c).hasKey n || (r.originals c.unit).hasKey n) = some n := by
    rw [List.find?_eq_some_iff_append]
    refine ⟨hasSignal_iff.2 hn, before, after, hlist, fun m hm => ?_⟩
    rw [Bool.not_eq_true', ← Bool.not_eq_true, hasSignal_iff]
    exact hbefore m hm
  simp only [infer, originals_eq, hfind]

variable (hnone : ∀ m ∈ r.priority.texts, ¬ r.Signals c m)
include hnone

/-- The second rule. -/
theorem infer_of_heaviest {e : String × Nat} (he : heaviest? (r.classWeights c) = some e) :
    r.infer c = some ⟨e.1, sourceOf c.unit e.1⟩ := by
  simp only [infer, originals_eq, find?_signal_eq.2 hnone, he]

/-- The third rule. -/
theorem infer_of_imported (hempty : r.classWeights c = []) : r.infer c =
    (r.originals c.unit).head?.map fun e => ⟨e.2.name, some e.2.qualifiedModule⟩ := by
  have hheaviest := heaviest?_eq_none_iff.2 hempty
  simp only [infer, originals_eq, find?_signal_eq.2 hnone, hheaviest]

omit hnone

/-! ## The choice -/

variable (r c)

/-- Some name of the priority list has a signal, and then there is a first one, or none has. -/
theorem exists_first_signal_or :
    (∃ before n after, r.priority.texts = before ++ n :: after ∧ r.Signals c n ∧
      ∀ m ∈ before, ¬ r.Signals c m) ∨ ∀ m ∈ r.priority.texts, ¬ r.Signals c m := by
  cases hfind : r.priority.texts.find? fun n =>
      (r.classWeights c).hasKey n || (r.originals c.unit).hasKey n with
  | none => exact .inr (find?_signal_eq.1 hfind)
  | some n =>
    obtain ⟨hn, before, after, hlist, hbefore⟩ := List.find?_eq_some_iff_append.1 hfind
    refine .inl ⟨before, n, after, hlist, hasSignal_iff.1 hn, fun m hm => ?_⟩
    rw [← hasSignal_iff, Bool.not_eq_true, ← Bool.not_eq_true']
    exact hbefore m hm

theorem nodup_keys_classWeights : (r.classWeights c).keys.Nodup := by
  rw [classWeights, weigh_eq_tally]
  exact Ordered.nodup_keys_tally _

theorem keys_classWeights_pairwise : (r.classWeights c).keys.Pairwise (r.SeenBefore c) :=
  r.keys_weigh_pairwise (r.importedNames c.unit) c.definition rfl

theorem mem_keys_classWeights_iff {n : String} : n ∈ (r.classWeights c).keys ↔
    ∃ a, r.ConstructsAt (r.importedNames c.unit) c.definition a n :=
  r.mem_keys_weigh_iff (r.importedNames c.unit) c.definition rfl

variable {r c}

/-- Of two constructed exceptions one is met first. -/
theorem SeenBefore.asymm {n m : String} (h : r.SeenBefore c n m) : ¬ r.SeenBefore c m n := by
  rintro ⟨b, hb, hm⟩
  obtain ⟨a, ha, hn⟩ := h
  exact (hn b hb).asymm (hm a ha)

/-- The heaviest entry of the table is that of an exception of maximal weight, and of several such
exceptions it is the one that is met first. -/
theorem heaviest_of_heaviest? {e : String × Nat} (he : heaviest? (r.classWeights c) = some e) :
    e.1 ∈ (r.classWeights c).keys ∧
      (∀ m, (r.classWeights c).weight m ≤ (r.classWeights c).weight e.1) ∧
      ∀ m ∈ (r.classWeights c).keys, m ≠ e.1 →
        (r.classWeights c).weight m = (r.classWeights c).weight e.1 → r.SeenBefore c e.1 m := by
  have hnodup := r.nodup_keys_classWeights c
  have hpairwise := r.keys_classWeights_pairwise c
  generalize r.classWeights c = t at *
  obtain ⟨d, t, rfl⟩ : ∃ d t', t = d :: t' := by
    cases t with
    | nil => cases he
    | cons d t => exact ⟨d, t, rfl⟩
  obtain ⟨before, d', after, hd, hsplit, hbefore, hafter⟩ := heaviest?_cons d t
  obtain rfl : d' = e := Option.some.inj (hd.symm.trans he)
  rw [hsplit] at hnodup hpairwise ⊢
  have hweight : ∀ x ∈ before ++ d' :: after, Ordered.weight (before ++ d' :: after) x.1 = x.2 :=
    fun x hx => by rw [Ordered.weight, Ordered.get?_of_mem hnodup hx]; rfl
  have hself := hweight d' (List.mem_append_right _ List.mem_cons_self)
  refine ⟨List.mem_map.2 ⟨d', by simp, rfl⟩, fun m => ?_, fun m hm hne heq => ?_⟩
  · by_cases hm : m ∈ Ordered.keys (before ++ d' :: after)
    · obtain ⟨x, hx, rfl⟩ := List.mem_map.1 hm
      rw [hweight x hx, hself]
      rcases List.mem_append.1 hx with hx | hx
      · exact (hbefore x hx).le
      · rcases List.mem_cons.1 hx with rfl | hx
        · exact Nat.le_refl _
        · exact hafter x hx
    · rw [Ordered.mem_keys_iff, Option.not_isSome_iff_eq_none] at hm
      simp [Ordered.weight, hm]
  · obtain ⟨x, hx, rfl⟩ := List.mem_map.1 hm
    rw [hweight x hx, hself] at heq
    rw [Ordered.keys, List.map_append, List.map_cons, List.pairwise_append,
      List.pairwise_cons] at hpairwise
    rcases List.mem_append.1 hx with hx | hx
    · exact absurd heq (hbefore x hx).ne
    · rcases List.mem_cons.1 hx with rfl | hx
      · exact absurd rfl hne
      · exact hpairwise.2.1.1 _ (List.mem_map.2 ⟨x, hx, rfl⟩)

theorem eq_nil_of_keys_eq_nil {t : Ordered Nat} (h : t.keys = []) : t = [] :=
  List.map_eq_nil_iff.1 h

/-- The third rule gives the name of the first import of the table, and the module of the last one
with this name. -/
theorem infer_of_importedNames_cons (hnone : ∀ m ∈ r.priority.texts, ¬ r.Signals c m)
    (hempty : r.classWeights c = []) {e : String × ImportedName} {rest : Ordered ImportedName}
    (htable : r.importedNames c.unit = e :: rest) :
    ∃ i, r.infer c = some ⟨e.2.name, some i.qualifiedModule⟩ ∧
      Ordered.get? ((r.importedNames c.unit).map fun e => (e.2.name, e.2)).reverse e.2.name =
        some i := by
  obtain ⟨i, hhead, hget⟩ :=
    Ordered.head?_overlay_nil (e.2.name, e.2) (rest.map fun e => (e.2.name, e.2))
  have horiginals : (r.originals c.unit).head? = some (e.2.name, i) := by
    rw [originals, htable]
    exact hhead
  have hname : i.name = e.2.name := by
    have hmem : (e.2.name, i) ∈ (e :: rest).map fun e => (e.2.name, e.2) :=
      List.mem_reverse.1 (Ordered.mem_of_get? hget)
    obtain ⟨x, -, hx⟩ := List.mem_map.1 hmem
    obtain ⟨hname, rfl⟩ := Prod.mk.inj hx
    exact hname
  refine ⟨i, ?_, ?_⟩
  · rw [infer_of_imported hnone hempty, horiginals, ← hname]
    rfl
  · rw [htable]
    exact hget

/-- The exception that is inferred is the one that the rules choose. -/
theorem infer_eq_some_iff_chooses {n : String} :
    (∃ x, r.infer c = some x ∧ x.name = n) ↔ r.Chooses c n := by
  constructor
  · rintro ⟨x, hx, rfl⟩
    rcases r.exists_first_signal_or c with ⟨before, n, after, hlist, hn, hbefore⟩ | hnone
    · rw [infer_of_priority hlist hn hbefore] at hx
      cases hx
      exact .priority hlist hn hbefore
    · cases hheaviest : heaviest? (r.classWeights c) with
      | some e =>
        rw [infer_of_heaviest hnone hheaviest] at hx
        cases hx
        obtain ⟨hkey, hmax, hseen⟩ := heaviest_of_heaviest? hheaviest
        exact .heaviest hnone hkey hmax hseen
      | none =>
        have hempty := heaviest?_eq_none_iff.1 hheaviest
        cases htable : r.importedNames c.unit with
        | nil =>
          rw [infer_of_imported hnone hempty, originals_eq_nil_iff.2 htable] at hx
          cases hx
        | cons e rest =>
          obtain ⟨i, hi, -⟩ := infer_of_importedNames_cons hnone hempty htable
          rw [hi] at hx
          cases hx
          exact .imported hnone (by rw [hempty]; rfl) htable
  · intro h
    cases h with
    | priority hlist hn hbefore => exact ⟨_, infer_of_priority hlist hn hbefore, rfl⟩
    | heaviest hnone hn hmax hseen =>
      cases hheaviest : heaviest? (r.classWeights c) with
      | none =>
        rw [heaviest?_eq_none_iff.1 hheaviest] at hn
        cases hn
      | some e =>
        -- Two exceptions of maximal weight would each be met before the other one.
        obtain ⟨hkey, hmax', hseen'⟩ := heaviest_of_heaviest? hheaviest
        refine ⟨_, infer_of_heaviest hnone hheaviest, ?_⟩
        by_contra hne
        have heq := Nat.le_antisymm (hmax' n) (hmax e.1)
        exact (hseen' n hn (Ne.symm hne) heq).asymm (hseen e.1 hkey hne heq.symm)
    | imported hnone hempty htable =>
      obtain ⟨i, hi, -⟩ :=
        infer_of_importedNames_cons hnone (eq_nil_of_keys_eq_nil hempty) htable
      exact ⟨_, hi, rfl⟩

/-- Where an exception is signalled, some exception is chosen. -/
theorem exists_chooses_of_signals {n : String} (h : r.Signals c n) : ∃ m, r.Chooses c m := by
  rcases r.exists_first_signal_or c with ⟨before, m, after, hlist, hm, hbefore⟩ | hnone
  · exact ⟨m, .priority hlist hm hbefore⟩
  · cases hheaviest : heaviest? (r.classWeights c) with
    | some e =>
      obtain ⟨hkey, hmax, hseen⟩ := heaviest_of_heaviest? hheaviest
      exact ⟨e.1, .heaviest hnone hkey hmax hseen⟩
    | none =>
      have hempty := heaviest?_eq_none_iff.1 hheaviest
      rcases h with ⟨e, he, -⟩ | h
      · cases htable : r.importedNames c.unit with
        | nil =>
          rw [htable] at he
          cases he
        | cons e rest => exact ⟨_, .imported hnone (by rw [hempty]; rfl) htable⟩
      · rw [hempty] at h
        cases h

theorem Chooses.signals {n : String} (h : r.Chooses c n) : r.Signals c n := by
  cases h with
  | priority _ hn => exact hn
  | heaviest _ hn => exact .inr hn
  | imported _ _ htable => exact .inl ⟨_, by rw [htable]; exact List.mem_cons_self, rfl⟩

/-- Nothing speaks for any exception if no import brings one in and nothing is constructed. -/
theorem forall_not_signals_iff : (∀ n, ¬ r.Signals c n) ↔
    (∀ i ∈ c.unit.imports, ¬ r.BringsIn i) ∧
      ∀ a n, ¬ r.ConstructsAt (r.importedNames c.unit) c.definition a n := by
  rw [← importedNames_eq_nil_iff]
  simp only [Signals, mem_keys_classWeights_iff, not_or, forall_and, not_exists]
  refine and_congr ?_ forall_comm
  rw [List.eq_nil_iff_forall_not_mem]
  constructor
  · intro h e he
    exact h _ e ⟨he, rfl⟩
  · rintro h n e ⟨he, -⟩
    exact h e he

theorem infer_eq_none_iff : r.infer c = none ↔
    (∀ i ∈ c.unit.imports, ¬ r.BringsIn i) ∧
      ∀ a n, ¬ r.ConstructsAt (r.importedNames c.unit) c.definition a n := by
  rw [← forall_not_signals_iff]
  constructor
  · intro hinfer n hn
    obtain ⟨m, hm⟩ := exists_chooses_of_signals hn
    obtain ⟨x, hx, -⟩ := infer_eq_some_iff_chooses.2 hm
    rw [hinfer] at hx
    cases hx
  · intro hnone
    cases hinfer : r.infer c with
    | none => rfl
    | some x => exact absurd (infer_eq_some_iff_chooses.1 ⟨x, hinfer, rfl⟩).signals (hnone x.name)

/-- With lists of texts, every class has an answer.  It is none if and only if the file imports no
exception from a known module and the class constructs none, and otherwise it is the exception that
the three rules choose.  Two classes with the same signals, some of them in the priority list, get
the same exception. -/
theorem inferred_iff_chooses {r : ExceptionRules} (h : r.Whole) :
    (∀ c, ∃ hint, r.inferred c = .ok hint ∧
      (hint = none ↔ (∀ i ∈ c.unit.imports, ¬ r.BringsIn i) ∧
        ∀ a n, ¬ r.ConstructsAt (r.importedNames c.unit) c.definition a n) ∧
      ∀ n, (∃ x, hint = some x ∧ x.name = n) ↔ r.Chooses c n) ∧
    ∀ c c', (∀ n, r.Signals c n ↔ r.Signals c' n) → (∃ n ∈ r.priority.texts, r.Signals c n) →
      ∃ x x', r.inferred c = .ok (some x) ∧ r.inferred c' = .ok (some x') ∧ x.name = x'.name := by
  refine ⟨fun c => ⟨r.infer c, inferred_of_whole h c, infer_eq_none_iff,
    fun n => infer_eq_some_iff_chooses⟩, fun c c' hsame hsome => ?_⟩
  rcases r.exists_first_signal_or c with ⟨before, n, after, hlist, hn, hbefore⟩ | hnone
  · have hbefore' : ∀ m ∈ before, ¬ r.Signals c' m := fun m hm hm' =>
      hbefore m hm ((hsame m).2 hm')
    refine ⟨⟨n, sourceOf c.unit n⟩, ⟨n, sourceOf c'.unit n⟩, ?_, ?_, rfl⟩
    · rw [inferred_of_whole h, infer_of_priority hlist hn hbefore]
    · rw [inferred_of_whole h, infer_of_priority hlist ((hsame n).1 hn) hbefore']
  · obtain ⟨n, hn, hsignal⟩ := hsome
    exact absurd hsignal (hnone n hn)

/-- The rules of `errorRules`, with `LateError` before all others. -/
def lateRules : ExceptionRules :=
  { errorRules with priority := ⟨["LateError"], none⟩ }

/-- The only class of a file, whose body is one statement. -/
def classOfStmt (s : Stmt) : ClassDecl where
  unit := ⟨⟨"/", ["orders.py"]⟩, "class Orders: pass",
    [.node default (.classDef "Orders" [] [] [s] [])]⟩
  number := 0
  stmt := .node default (.classDef "Orders" [] [] [s] [])
  name := "Orders"
  bases := []
  keywords := []
  body := [s]
  decorators := []

/-- The statement `raise LateError`. -/
def raiseLate : Stmt :=
  .node default (.raises (some (.node default (.name "LateError"))) none)

/-- The statement `from shop.exceptions import LateError as Late`. -/
def importLate : Stmt :=
  .node default (.importFrom (some "shop.exceptions") [⟨default, "LateError", some "Late"⟩] 0)

/-- A class that raises `LateError` and a class of another file that imports it have the same
signals, and get the same exception. -/
theorem inferred_iff_chooses_late :
    lateRules.Whole ∧
    (∀ n, lateRules.Signals (classOfStmt raiseLate) n ↔
      lateRules.Signals (classOfStmt importLate) n) ∧
    ∃ x x', lateRules.inferred (classOfStmt raiseLate) = .ok (some x) ∧
      lateRules.inferred (classOfStmt importLate) = .ok (some x') ∧ x.name = x'.name ∧
      lateRules.Chooses (classOfStmt raiseLate) x.name := by
  have hwhole : lateRules.Whole := by decide
  obtain ⟨hchooses, hagree⟩ := inferred_iff_chooses hwhole
  have hraise : lateRules.importedNames (classOfStmt raiseLate).unit = [] ∧
      (lateRules.classWeights (classOfStmt raiseLate)).keys = ["LateError"] := by decide +kernel
  have himport : (lateRules.importedNames (classOfStmt importLate).unit).map (·.2.name) =
      ["LateError"] ∧ (lateRules.classWeights (classOfStmt importLate)).keys = [] := by
    decide +kernel
  have hsignals (n : String) : lateRules.Signals (classOfStmt raiseLate) n ↔
      lateRules.Signals (classOfStmt importLate) n := by
    have hmem : (∃ e ∈ lateRules.importedNames (classOfStmt importLate).unit, e.2.name = n) ↔
        n ∈ ["LateError"] := by
      rw [← himport.1, List.mem_map]
    rw [Signals, Signals, hraise.1, hraise.2, himport.2, hmem]
    simp
  have hlate : "LateError" ∈ ["LateError"] := List.mem_singleton_self _
  obtain ⟨x, x', hx, hx', hname⟩ := hagree _ _ hsignals
    ⟨"LateError", hlate, .inr (by rw [hraise.2]; exact hlate)⟩
  obtain ⟨hint, hhint, -, hiff⟩ := hchooses (classOfStmt raiseLate)
  have hsome : hint = some x := Except.ok.inj (hhint.symm.trans hx)
  exact ⟨hwhole, hsignals, x, x', hx, hx', hname, (hiff x.name).1 ⟨x, hsome, rfl⟩⟩

end ExceptionRules

end RouteLens
