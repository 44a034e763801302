import RouteLens.Project
import RouteLens.Proofs.Source.Classes

/-!
# What a project gives for a path

A project reads a file when it is first asked for it and keeps what it read.  `Project.unitOf` is
what a path gives on a disk, and `Project.remember` is the project after the path was asked for.

* `unit_run`, `unitsOf_run` and `firstWith_run` turn the three searches of a project into plain list
  functions over `unitOf`;
* `Extends` is what reading on one disk does to a project: nothing that was read is lost, and no
  path gives anything else than before;
* `Locates` says that what was read already settles which file declares a class first, so that the
  disk no longer matters (`Locates.head_declarations`).
-/

namespace RouteLens

variable {edition : Nat} [CharacterNames edition]

/-! ## Look-up in lists of pairs -/

section Lookup

variable {α β : Type} [DecidableEq α]

theorem lookup_cons_eq_ite (k x : α) (v : β) (l : List (α × β)) :
    ((k, v) :: l).lookup x = if x = k then some v else l.lookup x := by
  by_cases h : x = k
  · simp [h]
  · have hne : (x == k) = false := beq_false_of_ne h
    rw [List.lookup_cons, hne, if_neg h]

theorem lookup_filter_fst (keep : α → Bool) (x : α) (l : List (α × β)) :
    (l.filter fun e => keep e.1).lookup x = if keep x then l.lookup x else none := by
  induction l with
  | nil => simp
  | cons e l ih =>
    obtain ⟨k, v⟩ := e
    by_cases hx : x = k
    · subst hx
      by_cases hk : keep x <;> simp [hk, ih]
    · by_cases hk : keep k <;> simp [hk, hx, ih, lookup_cons_eq_ite]

end Lookup

namespace Project

/-- The unit that a disk has for a path. -/
def unitOn (d : Disk) (ls : Languages) (path : Path) : Option SourceUnit :=
  if (ls.languageOf? path).isNone then none else (readUnit d path).toOption

/-- The unit that a project gives for a path: what it read before, or what the disk has now. -/
def unitOf (d : Disk) (ls : Languages) (p : Project) (path : Path) : Option SourceUnit :=
  match p.units.lookup path with
  | some u => u
  | none => if p.files.contains path then unitOn d ls path else none

/-- The project after it was asked for a path. -/
def remember (d : Disk) (ls : Languages) (p : Project) (path : Path) : Project :=
  if (p.units.lookup path).isNone && p.files.contains path then
    { p with units := (path, unitOn d ls path) :: p.units }
  else p

/-- The project after a search for a class along some paths. -/
def search (d : Disk) (ls : Languages) (name : String) : Project → List Path → Project
  | p, [] => p
  | p, x :: xs =>
    if ((p.unitOf d ls x).bind (·.findClass? name)).isSome then p.remember d ls x
    else search d ls name (p.remember d ls x) xs

/-- The classes of a name that a project declares, in path order. -/
def declarations (d : Disk) (ls : Languages) (p : Project) (name : String) : List ClassDecl :=
  (p.files.filterMap (p.unitOf d ls)).filterMap (·.findClass? name)

theorem head_declarations (d : Disk) (ls : Languages) (p : Project) (name : String) :
    (p.declarations d ls name).head? =
      p.files.findSome? fun x => (p.unitOf d ls x).bind (·.findClass? name) := by
  rw [declarations, List.filterMap_filterMap, List.head?_filterMap]

variable {d : Disk} {ls : Languages} {p q r : Project} {path : Path}

theorem unitOf_of_lookup {u : Option SourceUnit} (h : p.units.lookup path = some u) :
    p.unitOf d ls path = u := by
  simp [unitOf, h]

theorem path_of_readUnit {u : SourceUnit} (h : readUnit d path = .ok u) : u.path = path := by
  unfold readUnit SourceUnit.ofBytes SourceUnit.ofText at h
  split at h
  · cases h
  · split at h
    · cases h
    · simp only at h
      split at h
      · cases h
        rfl
      · cases h
      · cases h

theorem path_of_unitOn {u : SourceUnit} (h : unitOn d ls path = some u) : u.path = path := by
  unfold unitOn at h
  split at h
  · cases h
  · cases hr : readUnit d path with
    | error e => simp [hr, Except.toOption] at h
    | ok v =>
      simp only [hr, Except.toOption, Option.some.injEq] at h
      exact h ▸ path_of_readUnit hr

/-! ## Reading on one disk -/

/-- What reading files on a disk does to a project. -/
structure Extends (d : Disk) (ls : Languages) (p q : Project) : Prop where
  files_eq : q.files = p.files
  kept : ∀ path u, p.units.lookup path = some u → q.units.lookup path = some u
  unitOf_eq : ∀ path, q.unitOf d ls path = p.unitOf d ls path

theorem Extends.refl (p : Project) : Extends d ls p p :=
  ⟨rfl, fun _ _ h => h, fun _ => rfl⟩

theorem Extends.trans (h : Extends d ls p q) (h' : Extends d ls q r) : Extends d ls p r where
  files_eq := h'.files_eq.trans h.files_eq
  kept path u hu := h'.kept path u (h.kept path u hu)
  unitOf_eq path := (h'.unitOf_eq path).trans (h.unitOf_eq path)

theorem Extends.declarations_eq (h : Extends d ls p q) (name : String) :
    q.declarations d ls name = p.declarations d ls name := by
  have hunit : q.unitOf d ls = p.unitOf d ls := funext h.unitOf_eq
  rw [declarations, declarations, h.files_eq, hunit]

@[simp] theorem files_remember : (p.remember d ls path).files = p.files := by
  unfold remember
  split <;> rfl

theorem lookup_remember (x : Path) :
    (p.remember d ls path).units.lookup x =
      if x = path ∧ p.units.lookup path = none ∧ path ∈ p.files then some (unitOn d ls path)
      else p.units.lookup x := by
  unfold remember
  simp only [Bool.and_eq_true, Option.isNone_iff_eq_none, List.contains_iff_mem]
  by_cases h : p.units.lookup path = none ∧ path ∈ p.files
  · rw [if_pos h, lookup_cons_eq_ite]
    simp only [h, and_true]
  · rw [if_neg h, if_neg fun hx => h hx.2]

/-- Remembering a unit keeps all that a project had. -/
theorem extends_remember (d : Disk) (ls : Languages) (p : Project) (path : Path) :
    Extends d ls p (p.remember d ls path) where
  files_eq := files_remember
  kept x u hu := by
    rw [lookup_remember, if_neg, hu]
    rintro ⟨rfl, hnone, -⟩
    rw [hu] at hnone
    cases hnone
  unitOf_eq x := by
    unfold unitOf
    rw [lookup_remember, files_remember]
    by_cases h : x = path ∧ p.units.lookup path = none ∧ path ∈ p.files
    · rw [if_pos h]
      obtain ⟨rfl, hnone, hmem⟩ := h
      rw [hnone]
      simp [hmem]
    · rw [if_neg h]

theorem lookup_remember_self (d : Disk) (ls : Languages) (h : path ∈ p.files) :
    (p.remember d ls path).units.lookup path = some (p.unitOf d ls path) := by
  rw [lookup_remember, unitOf]
  cases hu : p.units.lookup path with
  | none => simp [h]
  | some u => simp

theorem extends_foldl_remember (d : Disk) (ls : Languages) (p : Project) (paths : List Path) :
    Extends d ls p (paths.foldl (remember d ls) p) := by
  induction paths generalizing p with
  | nil => exact .refl p
  | cons x xs ih => exact (extends_remember d ls p x).trans (ih _)

theorem extends_search (d : Disk) (ls : Languages) (name : String) (p : Project)
    (paths : List Path) : Extends d ls p (search d ls name p paths) := by
  induction paths generalizing p with
  | nil => exact .refl p
  | cons x xs ih =>
    unfold search
    split
    · exact extends_remember d ls p x
    · exact (extends_remember d ls p x).trans (ih _)

/-! ## The searches of a project -/

theorem run_bind_loading {α β : Type} (x : StateM Loading α) (f : α → StateM Loading β)
    (l : Loading) : (x >>= f).run l = (f (x.run l).1).run (x.run l).2 := rfl

theorem unit_run (d : Disk) (ls : Languages) (p : Project) (path : Path) (notes : List Note) :
    ∃ notes', (unit path).run ⟨d, ls, p, notes⟩ =
      (p.unitOf d ls path, ⟨d, ls, p.remember d ls path, notes'⟩) := by
  unfold unit unitOf remember unitOn
  cases hu : p.units.lookup path with
  | some u => exact ⟨notes, by simp [hu]; rfl⟩
  | none =>
    by_cases hf : path ∈ p.files
    · by_cases hl : ls.languageOf? path = none
      · exact ⟨notes, by simp [hu, hf, hl]; rfl⟩
      · cases hr : readUnit d path with
        | ok u => exact ⟨notes, by simp [hu, hf, hl, hr]; rfl⟩
        | error e => exact ⟨unusableNote path e :: notes, by simp [hu, hf, hl, hr]; rfl⟩
    · exact ⟨notes, by simp [hu, hf]; rfl⟩

theorem unitsOf_run (d : Disk) (ls : Languages) (p : Project) (paths : List Path)
    (notes : List Note) :
    ∃ notes', (unitsOf paths).run ⟨d, ls, p, notes⟩ =
      (paths.filterMap (p.unitOf d ls), ⟨d, ls, paths.foldl (remember d ls) p, notes'⟩) := by
  induction paths generalizing p notes with
  | nil => exact ⟨notes, rfl⟩
  | cons x xs ih =>
    obtain ⟨notes₁, hx⟩ := unit_run d ls p x notes
    obtain ⟨notes₂, hxs⟩ := ih (p.remember d ls x) notes₁
    refine ⟨notes₂, ?_⟩
    have hunit := funext (extends_remember d ls p x).unitOf_eq
    rw [unitsOf, run_bind_loading, hx, run_bind_loading, hxs]
    cases hu : p.unitOf d ls x <;> simp [hu, hunit] <;> rfl

/-- The first unit that declares a class is found, and those on the way are remembered. -/
theorem firstWith_run (d : Disk) (ls : Languages) (p : Project) (name : String)
    (paths : List Path) (notes : List Note) :
    ∃ notes', (firstWith name paths).run ⟨d, ls, p, notes⟩ =
      (paths.findSome? fun x => (p.unitOf d ls x).bind (·.findClass? name),
        ⟨d, ls, search d ls name p paths, notes'⟩) := by
  induction paths generalizing p notes with
  | nil => exact ⟨notes, rfl⟩
  | cons x xs ih =>
    obtain ⟨notes₁, hx⟩ := unit_run d ls p x notes
    have hunit := funext (extends_remember d ls p x).unitOf_eq
    rw [firstWith, run_bind_loading, hx]
    unfold search
    cases hc : (p.unitOf d ls x).bind (·.findClass? name) with
    | some c => exact ⟨notes₁, by simp [hc]; rfl⟩
    | none =>
      obtain ⟨notes₂, hxs⟩ := ih (p.remember d ls x) notes₁
      exact ⟨notes₂, by simpa [hc, hunit] using hxs⟩

/-! ## Places of classes -/

/-- Every unit that was read stands under its own path. -/
def UnitsInPlace (p : Project) : Prop :=
  ∀ path u, p.units.lookup path = some (some u) → u.path = path

theorem UnitsInPlace.remember (h : p.UnitsInPlace) (path : Path) :
    (p.remember d ls path).UnitsInPlace := by
  intro x u hx
  rw [lookup_remember] at hx
  split at hx
  · rename_i hpath
    exact hpath.1 ▸ path_of_unitOn (Option.some.inj hx)
  · exact h x u hx

theorem UnitsInPlace.foldl_remember (h : p.UnitsInPlace) (paths : List Path) :
    (paths.foldl (Project.remember d ls) p).UnitsInPlace := by
  induction paths generalizing p with
  | nil => exact h
  | cons x xs ih => exact ih (h.remember x)

theorem UnitsInPlace.search (h : p.UnitsInPlace) (name : String) (paths : List Path) :
    (Project.search d ls name p paths).UnitsInPlace := by
  induction paths generalizing p with
  | nil => exact h
  | cons x xs ih =>
    unfold Project.search
    split
    · exact h.remember x
    · exact ih (h.remember x)

theorem unit_of_findClass {u : SourceUnit} {name : String} {c : ClassDecl}
    (h : u.findClass? name = some c) : c.unit = u :=
  SourceUnit.unit_of_mem_classes (List.mem_of_find?_eq_some h)

/-- A class stands at a path, and no file before it declares one of that name.  All of this is known
from units that were read. -/
def Locates (p : Project) (name : String) (path : Path) (c : ClassDecl) : Prop :=
  ∃ before after, p.files = before ++ path :: after ∧
    (∀ x ∈ before, ∃ u, p.units.lookup x = some u ∧ u.bind (·.findClass? name) = none) ∧
    ∃ u, p.units.lookup path = some u ∧ u.bind (·.findClass? name) = some c

variable {name : String} {c : ClassDecl}

theorem Locates.extends (h : p.Locates name path c) (hq : Extends d ls p q) :
    q.Locates name path c := by
  obtain ⟨before, after, hfiles, hbefore, u, hu, hc⟩ := h
  refine ⟨before, after, hq.files_eq.trans hfiles, fun x hx => ?_, u, hq.kept path u hu, hc⟩
  obtain ⟨v, hv, hnone⟩ := hbefore x hx
  exact ⟨v, hq.kept x v hv, hnone⟩

/-- A remembered place still gives the class, whatever the disk has become. -/
theorem Locates.unitOf_bind (h : p.Locates name path c) (d : Disk) (ls : Languages) :
    (p.unitOf d ls path).bind (·.findClass? name) = some c := by
  obtain ⟨-, -, -, -, u, hu, hc⟩ := h
  rw [unitOf_of_lookup hu, hc]

/-- A remembered place gives the first declaration, whatever the disk has become. -/
theorem Locates.head_declarations (h : p.Locates name path c) (d : Disk) (ls : Languages) :
    (p.declarations d ls name).head? = some c := by
  have hpath := h.unitOf_bind d ls
  obtain ⟨before, after, hfiles, hbefore, -⟩ := h
  have hnone : before.findSome? (fun x => (p.unitOf d ls x).bind (·.findClass? name)) = none := by
    rw [List.findSome?_eq_none_iff]
    intro x hx
    obtain ⟨u, hu, hc⟩ := hbefore x hx
    rw [unitOf_of_lookup hu, hc]
  rw [Project.head_declarations, hfiles, List.findSome?_append, hnone]
  simp [hpath]

/-- A search along files of a project reads everything up to the first declaration. -/
theorem lookup_search {paths : List Path} (hmem : ∀ x ∈ paths, x ∈ p.files)
    (h : (paths.findSome? fun x => (p.unitOf d ls x).bind (·.findClass? name)) = some c) :
    ∃ before path after, paths = before ++ path :: after ∧
      (∀ x ∈ before, ∃ u, (search d ls name p paths).units.lookup x = some u ∧
        u.bind (·.findClass? name) = none) ∧
      ∃ u, (search d ls name p paths).units.lookup path = some u ∧
        u.bind (·.findClass? name) = some c := by
  induction paths generalizing p with
  | nil => cases h
  | cons x xs ih =>
    have hx : x ∈ p.files := hmem x List.mem_cons_self
    have hread := lookup_remember_self d ls hx
    unfold search
    cases hc : (p.unitOf d ls x).bind (·.findClass? name) with
    | some k =>
      have hk : k = c := by simpa [hc] using h
      subst hk
      refine ⟨[], x, xs, rfl, by simp, p.unitOf d ls x, ?_, hc⟩
      simpa using hread
    | none =>
      have hunit := funext (extends_remember d ls p x).unitOf_eq
      have hrest : (xs.findSome? fun y =>
          ((p.remember d ls x).unitOf d ls y).bind (·.findClass? name)) = some c := by
        simpa [hc, hunit] using h
      obtain ⟨before, path, after, hxs, hbefore, hpath⟩ :=
        ih (p := p.remember d ls x) (fun y hy => by simpa using hmem y (.tail _ hy)) hrest
      refine ⟨x :: before, path, after, by rw [hxs]; rfl, ?_, by simpa using hpath⟩
      intro y hy
      rcases List.mem_cons.1 hy with rfl | hy
      · have hext := extends_search d ls name (p.remember d ls y) xs
        exact ⟨_, by simpa using hext.kept y _ hread, hc⟩
      · simpa using hbefore y hy

/-- What a search finds in the files of a project, the project after it locates. -/
theorem UnitsInPlace.locates_search (h : p.UnitsInPlace)
    (hc : (p.declarations d ls name).head? = some c) :
    (Project.search d ls name p p.files).Locates name c.unit.path c := by
  rw [Project.head_declarations] at hc
  obtain ⟨before, path, after, hfiles, hbefore, u, hu, huc⟩ := lookup_search (fun _ hx => hx) hc
  have hpath : c.unit.path = path := by
    cases u with
    | none => cases huc
    | some v =>
      rw [unit_of_findClass huc]
      exact h.search name p.files path v hu
  rw [hpath]
  have hsame := (extends_search d ls name p p.files).files_eq
  exact ⟨before, after, hsame.trans hfiles, hbefore, u, hu, huc⟩

end Project

end RouteLens
