import RouteLens.Proofs.Project.PrunedWalk
import RouteLens.Proofs.Session.LookUps

/-!
# Which file declares a class first

A project lists its files in path order, and a name leads to the class of the first file that
declares one.  What else the disk has does not matter:

* a file is listed when its path is eligible, which can be told from the path, and the disk has it
  (`Disk.mem_discover_iff`);
* `Project.Tracks` says that a project gives what a disk of reference declares, for the names of a
  set.  It holds of projects that are loaded from any disk that declares the same, stays true while
  files change that declare none of the names, and settles the first declarations
  (`Project.Tracks.rel_head`).
-/

namespace RouteLens

variable {edition : Nat} [CharacterNames edition]

theorem isSome_eq_of_rel {α β : Type} {R : α → β → Prop} {x : Option α} {y : Option β}
    (h : Option.Rel R x y) : x.isSome = y.isSome := by
  cases h <;> rfl

/-- Two lists that are in order have the same entry first of those with a property, if both have
both. -/
theorem eq_of_firsts {α : Type} {le : α → α → Prop} {P : α → Prop}
    {before after before' after' : List α} {x y : α} (hxs : (before ++ x :: after).Pairwise le)
    (hys : (before' ++ y :: after').Pairwise le) (hle : le x y → le y x → x = y)
    (hbefore : ∀ a ∈ before, ¬ P a) (hbefore' : ∀ a ∈ before', ¬ P a)
    (hx : P x ∧ x ∈ before' ++ y :: after') (hy : P y ∧ y ∈ before ++ x :: after) : x = y := by
  obtain ⟨hx, hmem'⟩ := hx
  obtain ⟨hy, hmem⟩ := hy
  rw [List.mem_append, List.mem_cons] at hmem hmem'
  rw [List.pairwise_append, List.pairwise_cons] at hxs hys
  -- neither stands before the other
  rcases hmem with hmem | rfl | hmem
  · exact absurd hy (hbefore y hmem)
  · rfl
  · rcases hmem' with hmem' | rfl | hmem'
    · exact absurd hx (hbefore' x hmem')
    · rfl
    · exact hle (hxs.2.1.1 y hmem) (hys.2.1.1 x hmem')

/-- The first results along two lists that are in order are related, if each entry has related
results for both, and every entry with a result stands in both lists. -/
theorem findSome?_rel_of_sorted {α β γ : Type} {le : α → α → Prop} {R : β → γ → Prop}
    {f : α → Option β} {g : α → Option γ} {xs ys : List α} (hxs : xs.Pairwise le)
    (hys : ys.Pairwise le) (hle : ∀ x ∈ xs, ∀ y ∈ ys, le x y → le y x → x = y)
    (hf : ∀ x b, f x = some b → x ∈ xs) (hg : ∀ x c, g x = some c → x ∈ ys)
    (hrel : ∀ x, Option.Rel R (f x) (g x)) :
    Option.Rel R (xs.findSome? f) (ys.findSome? g) := by
  have hsome (x : α) : (f x).isSome ↔ (g x).isSome := by rw [isSome_eq_of_rel (hrel x)]
  have hmem {x : α} (hx : (f x).isSome) : x ∈ xs ∧ x ∈ ys := by
    obtain ⟨b, hb⟩ := Option.isSome_iff_exists.1 hx
    obtain ⟨c, hc⟩ := Option.isSome_iff_exists.1 ((hsome x).1 hx)
    exact ⟨hf x b hb, hg x c hc⟩
  cases hx : xs.findSome? f with
  | none =>
    have hnone : ys.findSome? g = none := by
      rw [List.findSome?_eq_none_iff] at hx ⊢
      intro y hy
      by_contra hne
      have hfy := (hsome y).2 (Option.isSome_iff_ne_none.2 hne)
      rw [hx y (hmem hfy).1] at hfy
      cases hfy
    rw [hnone]
    exact .none
  | some b =>
    obtain ⟨before, x, after, rfl, hb, hbefore⟩ := List.findSome?_eq_some_iff.1 hx
    have hfx : (f x).isSome := by simp [hb]
    cases hy : ys.findSome? g with
    | none =>
      rw [List.findSome?_eq_none_iff] at hy
      have hgx := (hsome x).1 hfx
      rw [hy x (hmem hfx).2] at hgx
      cases hgx
    | some c =>
      obtain ⟨before', y, after', rfl, hc, hbefore'⟩ := List.findSome?_eq_some_iff.1 hy
      have hfy : (f y).isSome := (hsome y).2 (by simp [hc])
      have hxy : x = y :=
        eq_of_firsts (P := fun a => (f a).isSome) hxs hys
          (hle x (hmem hfx).1 y (hmem hfy).2) (fun a ha => by simp [hbefore a ha])
          (fun a ha => by simp [hsome, hbefore' a ha]) ⟨hfx, (hmem hfx).2⟩ ⟨hfy, (hmem hfy).1⟩
      subst hxy
      have hrelx := hrel x
      rwa [hb, hc] at hrelx

/-! ## Listed files -/

namespace Disk

variable {d : Disk} {ls : Languages} {folder p : Path} {exclude : List String}
  {done ps parts names : List String}

/-- No name of a file is `..`. -/
def Plain (d : Disk) : Prop :=
  ∀ f ∈ d.files, ".." ∉ f.1

theorem isSome_lookup_iff : (d.files.lookup parts).isSome ↔ ∃ bytes, (parts, bytes) ∈ d.files := by
  induction d.files with
  | nil => simp
  | cons f fs ih =>
    obtain ⟨q, bytes⟩ := f
    by_cases h : parts = q
    · simp [h]
    · have hne : (parts == q) = false := beq_false_of_ne h
      rw [List.lookup_cons, hne]
      simp [h, ih]

theorem lookup_putFile_of_ne {bytes : List UInt8} {fs : List (List String × List UInt8)}
    (h : names ≠ parts) : (putFile parts bytes fs).lookup names = fs.lookup names := by
  have hne : (names == parts) = false := beq_false_of_ne h
  induction fs with
  | nil => rw [putFile, List.lookup_cons, hne]
  | cons f fs ih =>
    rw [putFile]
    split
    case isTrue hf => rw [List.lookup_cons, hne, List.lookup_cons, hf, hne]
    case isFalse => rw [List.lookup_cons, ih, List.lookup_cons]

theorem lookup_filter_of_ne {fs : List (List String × List UInt8)} (h : names ≠ parts) :
    (fs.filter fun f => f.1 != parts).lookup names = fs.lookup names := by
  have hne : (names == parts) = false := beq_false_of_ne h
  induction fs with
  | nil => rfl
  | cons f fs ih =>
    by_cases hf : f.1 = parts
    · rw [List.filter_cons_of_neg (by simp [hf]), ih, List.lookup_cons, hf, hne]
    · rw [List.filter_cons_of_pos (by simp [hf]), List.lookup_cons, ih, List.lookup_cons]

theorem hasFolder_of_lookup (h : (d.files.lookup parts).isSome) (hnames : names <+: parts)
    (hne : names ≠ parts) : d.hasFolder names = true := by
  obtain ⟨bytes, hmem⟩ := isSome_lookup_iff.1 h
  rw [hasFolder, Bool.or_eq_true, List.any_eq_true]
  exact .inr ⟨_, hmem, by simpa [hne] using hnames⟩

theorem eq_of_follow (hup : ".." ∉ ps) {place : List String} (h : d.follow done ps = some place) :
    place = done.reverse ++ ps := by
  induction ps generalizing done with
  | nil =>
    cases h
    simp
  | cons n ps ih =>
    have hn : n ≠ ".." := fun e => hup (by simp [e])
    rw [follow] at h
    split at h
    · cases h
    · rw [if_neg (by simpa using hn)] at h
      rw [ih (fun hmem => hup (.tail _ hmem)) h]
      simp

/-- Names are followed through folders that exist. -/
theorem follow_eq (hup : ".." ∉ ps)
    (hfolder : ∀ before, before <+: ps → before ≠ ps →
      d.hasFolder (done.reverse ++ before) = true) :
    d.follow done ps = some (done.reverse ++ ps) := by
  induction ps generalizing done with
  | nil => simp [follow]
  | cons n ps ih =>
    have hn : n ≠ ".." := fun e => hup (by simp [e])
    have hhere := hfolder [] List.nil_prefix (by simp)
    rw [List.append_nil] at hhere
    rw [follow, hhere, if_neg (by simp), if_neg (by simpa using hn),
      ih (fun hmem => hup (.tail _ hmem)) fun before hbefore hne => ?_]
    · simp
    · have := hfolder (n :: before) (List.cons_prefix_cons.2 ⟨rfl, hbefore⟩) (by simpa using hne)
      simpa using this

theorem read?_eq_lookup (hup : ".." ∉ p.parts) : d.read? p = d.files.lookup p.parts := by
  cases hlookup : d.files.lookup p.parts with
  | some bytes =>
    have hlocate : d.locate? p = some p.parts := by
      refine follow_eq hup fun before hbefore hne => ?_
      exact hasFolder_of_lookup (by rw [hlookup]; rfl) hbefore hne
    rw [read?, hlocate]
    exact hlookup
  | none =>
    rw [read?]
    cases hlocate : d.locate? p with
    | none => rfl
    | some place =>
      rw [eq_of_follow hup hlocate]
      exact hlookup

/-- A folder is where its names say, if there is a file below it. -/
theorem HasFile.locate?_eq (hup : ".." ∉ folder.parts) (h : d.HasFile folder.parts names) :
    d.locate? folder = some folder.parts := by
  obtain ⟨hne, hfile⟩ := h
  refine follow_eq hup fun before hbefore hbeforene => ?_
  refine hasFolder_of_lookup (isSome_lookup_iff.2 hfile)
    (hbefore.trans (List.prefix_append _ _)) fun heq => ?_
  have hlength := congrArg List.length heq
  have hle := hbefore.length_le
  simp only [List.reverse_nil, List.nil_append, List.length_append] at hlength
  exact hne (List.length_eq_zero_iff.1 (by omega))

/-- Whether a path can be a source file below a folder, as far as the path tells. -/
def Eligible (ls : Languages) (folder : Path) (exclude : List String) (x : Path) : Prop :=
  x.anchor = folder.anchor ∧ ".." ∉ x.parts ∧ ls.hasKey x.extension = true ∧
    ∃ names, names ≠ [] ∧ x.parts = folder.parts ++ names ∧ Admits exclude [] names

/-- The files that are listed are the ones that are eligible and on the disk. -/
theorem mem_discover_iff (hd : d.Plain) (hup : ".." ∉ folder.parts) {x : Path} :
    x ∈ d.discover ls folder exclude ↔ Eligible ls folder exclude x ∧ (d.read? x).isSome := by
  rw [mem_discover]
  constructor
  · rintro ⟨place, names, hplace, hfile, rfl, hkey, hadmits⟩
    have hparts : place = folder.parts := eq_of_follow hup hplace
    subst hparts
    obtain ⟨hne, bytes, hmem⟩ := hfile
    have hplain : ".." ∉ folder.parts ++ names := hd _ hmem
    refine ⟨⟨rfl, hplain, hkey, names, hne, rfl, hadmits⟩, ?_⟩
    rw [read?_eq_lookup hplain]
    exact isSome_lookup_iff.2 ⟨bytes, hmem⟩
  · rintro ⟨⟨hanchor, hplain, hkey, names, hne, hparts, hadmits⟩, hsome⟩
    rw [read?_eq_lookup hplain, hparts] at hsome
    have hfile : d.HasFile folder.parts names := ⟨hne, isSome_lookup_iff.1 hsome⟩
    refine ⟨folder.parts, names, hfile.locate?_eq hup, hfile, ?_, hkey, hadmits⟩
    rw [← hanchor, ← hparts]

end Disk

/-- The folder whose files make up the project of a root. -/
def DiscoveryRules.folder (rules : DiscoveryRules) (root : Path) :
    Option Path → Except Fault Path
  | some _ => .ok root
  | none => return root.join (.ofText (← rules.sourceFolder.asText))

namespace Project

open Disk

variable {d d' d₀ : Disk} {ls : Languages} {rules : DiscoveryRules} {root folder : Path}
  {exclude : List String} {p q : Project} {S : Set String} {name : String}

/-- A project has the files that are discovered in its folder. -/
theorem files_of_load {notes : List Note} {build : Option Path}
    (h : load d ls rules root = .ok (p, notes)) (hbuild : rules.findBuildFile d root = .ok build) :
    ∃ folder, rules.folder root build = .ok folder ∧
      p.files = d.discover ls folder rules.exclude.texts := by
  have hdiscover {folder : Path} {files : List Path}
      (hfiles : rules.discover d ls folder = .ok files) :
      files = d.discover ls folder rules.exclude.texts := by
    obtain ⟨_, -, hfiles⟩ := bind_eq_ok_iff.1 hfiles
    cases hfiles
    rfl
  rw [load, hbuild, ok_bind] at h
  cases build with
  | some b =>
    obtain ⟨files, hfiles, h⟩ := bind_eq_ok_iff.1 h
    cases h
    exact ⟨root, rfl, hdiscover hfiles⟩
  | none =>
    obtain ⟨text, htext, h⟩ := bind_eq_ok_iff.1 h
    obtain ⟨files, hfiles, h⟩ := bind_eq_ok_iff.1 h
    obtain ⟨notes', hrun⟩ := unitsOf_run d ls ⟨root, files, none, []⟩ files []
    rw [hrun] at h
    cases h
    refine ⟨root.join (.ofText text), ?_, ?_⟩
    · rw [DiscoveryRules.folder, htext]
      rfl
    · rw [(extends_foldl_remember d ls _ files).files_eq]
      exact hdiscover hfiles

/-- The class of a name that a disk declares in a file. -/
def classOn (d : Disk) (ls : Languages) (x : Path) (name : String) : Option ClassDecl :=
  (unitOn d ls x).bind (·.findClass? name)

theorem unitOn_of_not_read {x : Path} (h : ¬ (d.read? x).isSome) : unitOn d ls x = none := by
  rw [Option.not_isSome_iff_eq_none] at h
  unfold unitOn readUnit
  rw [h]
  split <;> rfl

/-- Two disks declare the same in every file, as far as the names of a set go: a file that is only
on one of them, or differs, declares none of these names, or the same class. -/
def SameDeclarations (ls : Languages) (S : Set String) (d d' : Disk) : Prop :=
  ∀ x : Path, ".." ∉ x.parts → ∀ n ∈ S,
    Option.Rel ClassDecl.SameAs (classOn d ls x n) (classOn d' ls x n)

/-! ### Disks that declare the same -/

theorem findClass?_withPath (u : SourceUnit) (path : Path) (name : String) :
    SourceUnit.findClass? { u with path } name =
      (u.findClass? name).map fun k => { k with unit := { u with path } } := by
  have hclasses : SourceUnit.classes { u with path } =
      u.classes.map fun k => { k with unit := { u with path } } := by
    unfold SourceUnit.classes
    rw [List.map_filterMap]
    congr 1
    funext x
    unfold SourceUnit.classAt?
    split <;> rfl
  rw [SourceUnit.findClass?, hclasses, List.find?_map]
  rfl

theorem ofBytes_withPath (x y : Path) (bytes : List UInt8) :
    SourceUnit.ofBytes x bytes =
      (SourceUnit.ofBytes y bytes).map fun u => { u with path := x } := by
  unfold SourceUnit.ofBytes SourceUnit.ofText
  cases Utf8.decode bytes with
  | error f => rfl
  | ok text =>
    simp only
    cases readSource (String.ofList (unifyLineEnds text.toList)) with
    | error f => cases f <;> rfl
    | ok body => rfl

/-- Paths with the same parts lead to the same unit, up to the path it carries. -/
theorem unitOn_withPath {x y : Path} (h : x.parts = y.parts) :
    unitOn d ls x = (unitOn d ls y).map fun u => { u with path := x } := by
  have hlanguage : ls.languageOf? x = ls.languageOf? y := by
    unfold Languages.languageOf? Path.extension Path.fileName
    rw [h]
  have hread : d.read? x = d.read? y := by
    unfold read? locate?
    rw [h]
  unfold unitOn readUnit
  rw [hlanguage, hread]
  split
  · rfl
  · cases d.read? y with
    | none => rfl
    | some bytes =>
      simp only
      rw [ofBytes_withPath x y]
      cases SourceUnit.ofBytes y bytes <;> rfl

/-- Whether a file declares a class does not depend on what stands before the names of its path. -/
theorem classOn_eq_none_of_parts {x y : Path} (hparts : x.parts = y.parts)
    (h : classOn d ls y name = none) : classOn d ls x name = none := by
  unfold classOn at h ⊢
  rw [unitOn_withPath hparts]
  cases hu : unitOn d ls y with
  | none => rfl
  | some u =>
    rw [hu, Option.bind_some] at h
    rw [Option.map_some, Option.bind_some, findClass?_withPath, h]
    rfl

/-- Two disks declare the same if every file that differs declares none of the names on either. -/
theorem sameDeclarations_of_lookup
    (h : ∀ parts, d.files.lookup parts = d'.files.lookup parts ∨ ∀ n ∈ S,
      classOn d ls ⟨"/", parts⟩ n = none ∧ classOn d' ls ⟨"/", parts⟩ n = none) :
    SameDeclarations ls S d d' := by
  intro x hup n hn
  rcases h x.parts with heq | hnone
  · have hclass : classOn d ls x n = classOn d' ls x n := by
      unfold classOn unitOn readUnit
      rw [read?_eq_lookup hup, read?_eq_lookup hup, heq]
    rw [hclass]
    exact ClassDecl.SameAs.rel_refl _
  · obtain ⟨hclass, hclass'⟩ := hnone n hn
    have hparts : x.parts = (⟨"/", x.parts⟩ : Path).parts := rfl
    rw [classOn_eq_none_of_parts hparts hclass, classOn_eq_none_of_parts hparts hclass']
    exact .none

theorem SameDeclarations.refl (ls : Languages) (S : Set String) (d : Disk) :
    SameDeclarations ls S d d :=
  fun _ _ _ _ => ClassDecl.SameAs.rel_refl _

theorem SameDeclarations.trans (h : SameDeclarations ls S d₀ d) (h' : SameDeclarations ls S d d') :
    SameDeclarations ls S d₀ d' :=
  fun x hup n hn => ClassDecl.SameAs.rel_trans (h x hup n hn) (h' x hup n hn)

/-- A file is written that declares none of the names, where none of them was declared. -/
theorem sameDeclarations_write {path : Path} {bytes : List UInt8} (hup : ".." ∉ path.parts)
    (hold : ∀ n ∈ S, classOn d ls path n = none)
    (hnew : ∀ n ∈ S, classOn (d.write path bytes) ls path n = none) :
    SameDeclarations ls S d (d.write path bytes) := by
  refine sameDeclarations_of_lookup fun parts => ?_
  by_cases hparts : parts = path.parts
  · subst hparts
    exact .inr fun n hn => ⟨classOn_eq_none_of_parts (y := path) rfl (hold n hn),
      classOn_eq_none_of_parts (y := path) rfl (hnew n hn)⟩
  · left
    unfold Disk.write
    rw [Path.collapse_of_up_not_mem hup, lookup_putFile_of_ne (by simpa using hparts)]

/-- A file is deleted that declares none of the names. -/
theorem sameDeclarations_remove {path : Path} (hup : ".." ∉ path.parts)
    (hold : ∀ n ∈ S, classOn d ls path n = none) : SameDeclarations ls S d (d.remove path) := by
  refine sameDeclarations_of_lookup fun parts => ?_
  cases hlocate : d.locate? path with
  | none => simp [Disk.remove, hlocate]
  | some place =>
    have hplace : place = path.parts := eq_of_follow hup hlocate
    subst hplace
    by_cases hparts : parts = path.parts
    · subst hparts
      refine .inr fun n hn => ⟨classOn_eq_none_of_parts (y := path) rfl (hold n hn), ?_⟩
      refine classOn_eq_none_of_parts (y := path) rfl ?_
      have hgone : ¬ ((d.remove path).read? path).isSome := by
        rw [read?_eq_lookup hup, isSome_lookup_iff]
        simp [Disk.remove, hlocate]
      rw [classOn, unitOn_of_not_read hgone, Option.bind_none]
    · left
      simp only [Disk.remove, hlocate]
      exact (lookup_filter_of_ne hparts).symm

/-! ### Projects that give what a disk declares -/

/-- A project lists files of a folder in order, and gives for eligible paths what a disk of
reference declares, as far as the names of a set go. -/
structure Tracks (ls : Languages) (folder : Path) (exclude : List String) (S : Set String)
    (d₀ d : Disk) (p : Project) : Prop where
  sorted : p.files.Pairwise fun x y => x.le y = true
  eligible : ∀ x ∈ p.files, Eligible ls folder exclude x
  same : ∀ x, Eligible ls folder exclude x → ∀ n ∈ S, Option.Rel ClassDecl.SameAs
    (classOn d₀ ls x n) ((p.unitOf d ls x).bind (·.findClass? n))

/-- A project that is loaded from a disk that declares the same. -/
theorem tracks_of_load {notes : List Note} {build : Option Path}
    (hload : load d ls rules root = .ok (p, notes))
    (hbuild : rules.findBuildFile d root = .ok build)
    (hfolder : rules.folder root build = .ok folder) (hup : ".." ∉ folder.parts) (hd : d.Plain)
    (hsame : SameDeclarations ls S d₀ d) :
    p.Tracks ls folder rules.exclude.texts S d₀ d := by
  obtain ⟨folder', hfolder', hfiles⟩ := files_of_load hload hbuild
  rw [hfolder] at hfolder'
  cases hfolder'
  refine ⟨?_, fun x hx => ?_, fun x hx n hn => ?_⟩
  · rw [hfiles]
    exact pairwise_discover ..
  · rw [hfiles] at hx
    exact ((mem_discover_iff hd hup).1 hx).1
  · have hunit : p.unitOf d ls x = unitOn d ls x := by
      rw [readsDisk_of_load hload x]
      by_cases hmem : x ∈ p.files
      · rw [if_pos hmem]
      · rw [if_neg hmem]
        refine (unitOn_of_not_read fun hread => hmem ?_).symm
        rw [hfiles]
        exact (mem_discover_iff hd hup).2 ⟨hx, hread⟩
    rw [hunit]
    exact hsame x hx.2.1 n hn

namespace Tracks

theorem of_extends (h : p.Tracks ls folder exclude S d₀ d) (hext : p.Extends d ls q) :
    q.Tracks ls folder exclude S d₀ d where
  sorted := hext.files_eq ▸ h.sorted
  eligible := hext.files_eq ▸ h.eligible
  same x hx n hn := by
    rw [hext.unitOf_eq]
    exact h.same x hx n hn

/-- Files may change as long as they declare the same. -/
theorem of_disk (h : p.Tracks ls folder exclude S d₀ d) (hsame : SameDeclarations ls S d₀ d') :
    p.Tracks ls folder exclude S d₀ d' where
  sorted := h.sorted
  eligible := h.eligible
  same x hx n hn := by
    have hold := h.same x hx n hn
    unfold unitOf at hold ⊢
    cases hread : p.units.lookup x with
    | some u =>
      rw [hread] at hold
      exact hold
    | none =>
      rw [hread] at hold
      by_cases hmem : p.files.contains x = true
      · simp only [if_pos hmem]
        exact hsame x hx.2.1 n hn
      · simpa only [if_neg hmem] using hold

/-- The first declarations of two projects that track the same disk say the same. -/
theorem rel_head (h : p.Tracks ls folder exclude S d₀ d) (h' : q.Tracks ls folder exclude S d₀ d')
    (hp : p.Orderly) (hq : q.Orderly) (hname : name ∈ S) :
    Option.Rel ClassDecl.SameAs (p.declarations d ls name).head?
      (q.declarations d' ls name).head? := by
  rw [head_declarations, head_declarations]
  have hmem : ∀ x k, (p.unitOf d ls x).bind (·.findClass? name) = some k → x ∈ p.files :=
    fun x k hk => (hp.givesFiles.mem_and_path hk).1
  have hmem' : ∀ x k, (q.unitOf d' ls x).bind (·.findClass? name) = some k → x ∈ q.files :=
    fun x k hk => (hq.givesFiles.mem_and_path hk).1
  refine findSome?_rel_of_sorted h.sorted h'.sorted (fun x hx y hy hxy hyx => ?_) hmem hmem'
    fun x => ?_
  · have hanchor := (h.eligible x hx).1.trans (h'.eligible y hy).1.symm
    have hparts := Path.parts_eq_of_le hxy hyx
    cases x
    cases y
    simp_all
  · by_cases hx : Eligible ls folder exclude x
    · exact ClassDecl.SameAs.rel_trans (ClassDecl.SameAs.rel_symm (h.same x hx name hname))
        (h'.same x hx name hname)
    · have hnone : (p.unitOf d ls x).bind (·.findClass? name) = none :=
        Option.eq_none_iff_forall_ne_some.2 fun k hk => hx (h.eligible x (hmem x k hk))
      have hnone' : (q.unitOf d' ls x).bind (·.findClass? name) = none :=
        Option.eq_none_iff_forall_ne_some.2 fun k hk => hx (h'.eligible x (hmem' x k hk))
      rw [hnone, hnone']
      exact .none

end Tracks

end Project

end RouteLens
