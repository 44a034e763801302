import Mathlib.Tactic.IntervalCases
import RouteLens.Proofs.Project.FirstDeclaration
import RouteLens.Proofs.Session.Answers

/-!
# Payloads and the files around them

The payload of a class is made of the classes that a closed set of names leads to
(`payload_eq_of_sameClasses`).  Here the files around them change: files come and go that declare
none of the names, before a session starts or while it runs.

* `Spares` says of a disk that the same build file is found on it for a root, and that it declares
  the same as a disk of reference, as far as the names of a set go;
* every project that is kept for the root then tracks the disk of reference (`KeepsTrack`), in a run
  of any steps over such disks (`KeepsTrack.after`), so that the names lead to the same classes;
* `payload_local` puts both together.  A file that marks a root as a project declares no class, and
  yet it changes the files that make up the project (`payload_changes_with_build`).
-/

namespace RouteLens

section

variable {edition : Nat} [CharacterNames edition]

/-! ## Plain disks -/

namespace Disk

variable {d : Disk}

theorem mem_putFile {parts : List String} {bytes : List UInt8}
    {fs : List (List String × List UInt8)} {f : List String × List UInt8}
    (h : f ∈ putFile parts bytes fs) : f = (parts, bytes) ∨ f ∈ fs := by
  induction fs with
  | nil => exact .inl (List.mem_singleton.1 h)
  | cons g fs ih =>
    rw [putFile] at h
    split at h
    · rcases List.mem_cons.1 h with rfl | h
      · exact .inl rfl
      · exact .inr (.tail _ h)
    · rcases List.mem_cons.1 h with rfl | h
      · exact .inr List.mem_cons_self
      · exact (ih h).imp_right (.tail _)

theorem Plain.write (h : d.Plain) (path : Path) (bytes : List UInt8) :
    (d.write path bytes).Plain := by
  intro f hf
  rcases mem_putFile hf with rfl | hf
  · exact Path.up_not_mem_collapse (by simp)
  · exact h f hf

theorem Plain.remove (h : d.Plain) (path : Path) : (d.remove path).Plain := by
  intro f hf
  unfold Disk.remove at hf
  split at hf
  · exact h f hf
  · exact h f (List.mem_filter.1 hf).1

end Disk

namespace Session

variable {s : Session} {e : Step} {steps : List Step}

theorem disk_apply (h : e.leavesDisk = true) (s : Session) : (e.apply s).disk = s.disk :=
  disk_after (List.forall_mem_singleton.2 h) s

theorem plain_apply (h : s.disk.Plain) (e : Step) : (e.apply s).disk.Plain := by
  cases e with
  | write path bytes => exact h.write path bytes
  | delete path => exact h.remove path
  | _ =>
    rw [disk_apply rfl]
    exact h

theorem plain_after (h : s.disk.Plain) (steps : List Step) : (s.after steps).disk.Plain := by
  induction steps generalizing s with
  | nil => exact h
  | cons e steps ih => exact ih (plain_apply h e)

/-! ## What is kept for a root -/

variable {c : Context} {root r folder : Path} {rules : DiscoveryRules} {build : Option Path}
  {S : Set String} {d d' : Disk} {m : Memory} {key : ProjectKey} {p q : Project} {now : Binary64}

/-- The project of a root consists of the files of a folder, and the folder is given without
`..`. -/
structure Lists (c : Context) (root : Path) (rules : DiscoveryRules) (build : Option Path)
    (folder : Path) : Prop where
  rules_eq : DiscoveryRules.ofConfig c.rules.config = .ok rules
  build_eq : rules.findBuildFile c.disk root = .ok build
  folder_eq : rules.folder root build = .ok folder
  plain : ".." ∉ folder.parts

/-- On a disk the same build file is found for a root as in a context, and every file declares the
same, as far as the names of a set go. -/
structure Spares (c : Context) (root : Path) (S : Set String) (d : Disk) : Prop where
  build : buildOf { c with disk := d } root = buildOf c root
  same : Project.SameDeclarations c.languages S c.disk d

/-- What is kept for a root tracks the disk of a context. -/
def KeepsTrack (c : Context) (root : Path) (rules : DiscoveryRules) (build : Option Path)
    (folder : Path) (S : Set String) (m : Memory) (d : Disk) : Prop :=
  ∀ p, m.project ⟨root, build⟩ = some p →
    p.Tracks c.languages folder rules.exclude.texts S c.disk d

theorem Lists.tracks_projectOf (h : Lists c root rules build folder) (hspares : Spares c root S d)
    (hplain : d.Plain) (hkeeps : KeepsTrack c root rules build folder S m d)
    (hp : projectOf { c with disk := d, now } m root = .ok (key, p)) :
    key = ⟨root, build⟩ ∧ p.Tracks c.languages folder rules.exclude.texts S c.disk d := by
  obtain ⟨rules', build', hrules, hbuild, rfl, hp⟩ := projectOf_eq_ok_iff.1 hp
  cases h.rules_eq.symm.trans hrules
  -- the build file is the one of the context
  have hsame := hspares.build
  rw [buildOf, buildOf, h.rules_eq, ok_bind, ok_bind, hbuild, h.build_eq] at hsame
  cases hsame
  refine ⟨rfl, ?_⟩
  obtain hkept | ⟨-, notes, hload⟩ := hp
  · exact hkeeps p hkept
  · exact Project.tracks_of_load hload hbuild h.folder_eq h.plain hplain hspares.same

theorem KeepsTrack.keep (h : KeepsTrack c root rules build folder S m d)
    (hq : q.Tracks c.languages folder rules.exclude.texts S c.disk d) (key : ProjectKey) :
    KeepsTrack c root rules build folder S (m.keep key q) d := by
  intro p hp
  by_cases hkey : (⟨root, build⟩ : ProjectKey) = key
  · subst hkey
    rw [Memory.project_keep] at hp
    cases hp
    exact hq
  · rw [Memory.project_keep_of_ne hkey] at hp
    exact h p hp

/-- Every query about a root leaves what is kept for it on track. -/
theorem Lists.fullyClosed_keepsTrack (h : Lists c root rules build folder) (S : Set String) :
    FullyClosed root fun s t => t.context = s.context ∧
      (s.context = { c with disk := s.disk, now := s.now } → Spares c root S s.disk →
        s.disk.Plain → KeepsTrack c root rules build folder S s.memory s.disk →
        KeepsTrack c root rules build folder S t.memory s.disk) := by
  refine .of_touches (G := fun c' m m' =>
      c' = { c with disk := c'.disk, now := c'.now } → Spares c root S c'.disk → c'.disk.Plain →
        KeepsTrack c root rules build folder S m c'.disk →
        KeepsTrack c root rules build folder S m' c'.disk) Iff.rfl
    (fun h h' hc hspares hplain hkeeps => h' hc hspares hplain (h hc hspares hplain hkeeps))
    fun {c' m m'} htouches hc hspares hplain hkeeps => ?_
  have hlanguages : c'.languages = c.languages := by rw [hc]
  cases htouches with
  | nothing => exact hkeeps
  | files paths hp =>
    have htracks := (h.tracks_projectOf hspares hplain hkeeps (hc ▸ hp)).2
    rw [hlanguages]
    exact hkeeps.keep (htracks.of_extends (Project.extends_foldl_remember ..)) _
  | lookUp name hp =>
    have htracks := (h.tracks_projectOf hspares hplain hkeeps (hc ▸ hp)).2
    rw [hlanguages]
    exact hkeeps.keep (htracks.of_extends (extends_lookUp ..)) _
  | result className methodName e => exact hkeeps

/-! ## Runs -/

theorem context_apply_of_eq (hc : s.context = { c with disk := s.disk, now := s.now }) (e : Step) :
    (e.apply s).context = { c with disk := (e.apply s).disk, now := (e.apply s).now } := by
  have hstep := context_after_eq [e] s
  rw [hc] at hstep
  exact hstep

/-- A step from one disk that declares the same to another one. -/
theorem KeepsTrack.apply (h : Lists c root rules build folder)
    (hc : s.context = { c with disk := s.disk, now := s.now }) (hspares : Spares c root S s.disk)
    (hspares' : Spares c root S (e.apply s).disk) (hplain : s.disk.Plain)
    (hkeeps : KeepsTrack c root rules build folder S s.memory s.disk) :
    KeepsTrack c root rules build folder S (e.apply s).memory (e.apply s).disk := by
  cases e.effect root s with
  | dropped hdrops hmemory =>
    intro p hp
    rw [hmemory] at hp
    simp [Memory.drop] at hp
  | asked hwithin =>
    obtain ⟨hcontext, hkeep⟩ := hwithin _ (h.fullyClosed_keepsTrack S)
    have hdisk : (e.apply s).disk = s.disk := congrArg Context.disk hcontext
    rw [hdisk]
    exact hkeep hc hspares hplain hkeeps
  | apart hproject hplace =>
    intro p hp
    rw [hproject] at hp
    exact (hkeeps p hp).of_disk hspares'.same

theorem KeepsTrack.after (h : Lists c root rules build folder)
    (hc : s.context = { c with disk := s.disk, now := s.now })
    (hspares : ∀ before, before <+: steps → Spares c root S (s.after before).disk)
    (hplain : s.disk.Plain) (hkeeps : KeepsTrack c root rules build folder S s.memory s.disk) :
    KeepsTrack c root rules build folder S (s.after steps).memory (s.after steps).disk := by
  induction steps generalizing s with
  | nil => exact hkeeps
  | cons e steps ih =>
    have hfirst := hspares [] List.nil_prefix
    have hnext := hspares [e] (List.cons_prefix_cons.2 ⟨rfl, List.nil_prefix⟩)
    refine ih (context_apply_of_eq hc e) (fun before hbefore => hspares (e :: before) ?_)
      (plain_apply hplain e) (hkeeps.apply h hc hfirst hnext hplain)
    exact List.cons_prefix_cons.2 ⟨rfl, hbefore⟩

/-- While the same build file is found, all places are those of first declarations. -/
theorem keepsBuild_of_spares (hc : s.context = { c with disk := s.disk, now := s.now })
    (hspares : ∀ before, before <+: steps → Spares c root S (s.after before).disk) :
    KeepsBuild root s steps := by
  induction steps generalizing s with
  | nil => trivial
  | cons e steps ih =>
    have hfirst := (hspares [] List.nil_prefix).build
    have hnext := (hspares [e] (List.cons_prefix_cons.2 ⟨rfl, List.nil_prefix⟩)).build
    have hc' := context_apply_of_eq hc e
    refine ⟨?_, ih hc' fun before hbefore => hspares (e :: before) ?_⟩
    · rw [hc', hc]
      exact hnext.trans hfirst.symm
    · exact List.cons_prefix_cons.2 ⟨rfl, hbefore⟩

/-- What names lead to, once all places are those of first declarations. -/
theorem Placed.perform_classOf (h : Placed s.context s.memory root)
    (hr : Path.resolve s.directory r = root)
    (hp : projectOf s.context s.memory root = .ok (key, p)) (name : String) :
    (perform (ask r (.classOf name)) s).1 =
      .ok (p.declarations s.disk s.languages name).head? := by
  rw [perform_classOf_eq hr hp]
  exact congrArg Except.ok (h.answer_lookUp hp name)

variable {config : Config} {directory : Path} {d₀ : Disk} {now₀ : Binary64} {s₀ : Session}

/-- The folder of the files of a root is given without `..`. -/
def PlainFolder (c : Context) (root : Path) : Prop :=
  ∀ rules build folder, DiscoveryRules.ofConfig c.rules.config = .ok rules →
    rules.findBuildFile c.disk root = .ok build → rules.folder root build = .ok folder →
    ".." ∉ folder.parts

theorem exists_lists (hp : projectOf c .empty root = .ok (key, p)) (hplain : PlainFolder c root) :
    ∃ rules build folder, Lists c root rules build folder := by
  obtain ⟨rules, build, hrules, hbuild, -, hkept | ⟨-, notes, hload⟩⟩ := projectOf_eq_ok_iff.1 hp
  · cases hkept
  · obtain ⟨folder, hfolder, -⟩ := Project.files_of_load hload hbuild
    exact ⟨rules, build, folder, hrules, hbuild, hfolder,
      hplain rules build folder hrules hbuild hfolder⟩

theorem rules_after (steps : List Step) (s : Session) : (s.after steps).rules = s.rules :=
  congrArg Context.rules (context_after_eq steps s)

/-- Sessions that start with one configuration differ in the disk and the time. -/
theorem context_of_starts (hstart₀ : start config directory d₀ now₀ = .ok s₀)
    (hstart : start config directory d now = .ok s) :
    s.context = { s₀.context with disk := s.disk, now := s.now } := by
  obtain ⟨t, ht, -, hcontext⟩ := start_again hstart₀ d now
  cases hstart.symm.trans ht
  have hdisk : s.disk = d := congrArg Context.disk hcontext
  have hnow : s.now = now := congrArg Context.now hcontext
  rw [hcontext, hdisk, hnow]

theorem Spares.refl (c : Context) (root : Path) (S : Set String) : Spares c root S c.disk :=
  ⟨rfl, .refl _ _ _⟩

/-- After a run over disks that declare the same as a context, the project of a root tracks the disk
of the context, and names lead to its first declarations. -/
theorem Lists.tracks_after (h : Lists c root rules build folder)
    (hstart : start config directory d now = .ok s) (hr : Path.resolve directory r = root)
    (hc : s.context = { c with disk := s.disk, now := s.now }) (hd : d.Plain)
    (hspares : ∀ before, before <+: steps → Spares c root S (s.after before).disk)
    (hp : projectOf (s.after steps).context (s.after steps).memory root = .ok (key, p)) :
    p.Tracks c.languages folder rules.exclude.texts S c.disk (s.after steps).disk ∧ p.Orderly ∧
      ∀ name, (perform (ask r (.classOf name)) (s.after steps)).1 =
        .ok (p.declarations (s.after steps).disk c.languages name).head? := by
  obtain ⟨hdirectory, rfl, hempty⟩ := views_of_start hstart
  have hr' : Path.resolve (s.after steps).directory r = root := by
    rw [directory_after, hdirectory, hr]
  have hc' : (s.after steps).context =
      { c with disk := (s.after steps).disk, now := (s.after steps).now } := by
    rw [context_after_eq, hc]
  have hplaced : Placed (s.after steps).context (s.after steps).memory root := by
    refine Placed.after ?_ (keepsBuild_of_spares hc hspares)
    rw [hempty]
    exact placed_of_forgotten (fun _ => rfl) fun _ => rfl
  have hkeeps : KeepsTrack c root rules build folder S (s.after steps).memory
      (s.after steps).disk := by
    refine KeepsTrack.after h hc hspares hd ?_
    rw [hempty]
    rintro p ⟨⟩
  have htracks := h.tracks_projectOf (hspares steps (List.prefix_refl _)) (plain_after hd steps)
    hkeeps (hc' ▸ hp)
  refine ⟨htracks.2, (keepsOrder_of_start hstart steps).projectOf hp, fun name => ?_⟩
  have hlanguages : (s.after steps).languages = c.languages := congrArg Context.languages hc'
  rw [hplaced.perform_classOf hr' hp, hlanguages]

/-- Names lead to the same classes in a session that starts, and in a session after a run over disks
that declare the same. -/
theorem sameClasses_after (hstart₀ : start config directory d₀ now₀ = .ok s₀)
    (hstart : start config directory d now = .ok s) (hd₀ : d₀.Plain) (hd : d.Plain)
    (hfolder : PlainFolder s₀.context (Path.resolve directory r))
    (hspares : ∀ before, before <+: steps →
      Spares s₀.context (Path.resolve directory r) S (s.after before).disk)
    {name : String} {k k' : Option ClassDecl}
    (hk : (perform (ask r (.classOf name)) s₀).1 = .ok k)
    (hk' : (perform (ask r (.classOf name)) (s.after steps)).1 = .ok k') :
    SameClasses S s₀ r (s.after steps) r := by
  obtain ⟨hdirectory₀, -, hempty₀⟩ := views_of_start hstart₀
  have hdirectory : s.directory = directory := (views_of_start hstart).1
  have hr₀ : Path.resolve s₀.directory r = Path.resolve directory r := by rw [hdirectory₀]
  have hr : Path.resolve (s.after steps).directory r = Path.resolve directory r := by
    rw [directory_after, hdirectory]
  obtain ⟨key, p, hp⟩ := exists_projectOf_of_classOf hr₀ hk
  obtain ⟨key', p', hp'⟩ := exists_projectOf_of_classOf hr hk'
  obtain ⟨rules, build, folder, hlists⟩ := exists_lists (hempty₀ ▸ hp) hfolder
  have hspares₀ : ∀ before, before <+: [] →
      Spares s₀.context (Path.resolve directory r) S (s₀.after before).disk := by
    intro before hbefore
    rw [List.prefix_nil.1 hbefore]
    exact .refl ..
  obtain ⟨htracks, horder, hclass⟩ := hlists.tracks_after hstart₀ rfl rfl hd₀ hspares₀ hp
  obtain ⟨htracks', horder', hclass'⟩ := hlists.tracks_after hstart rfl
    (context_of_starts hstart₀ hstart) hd hspares hp'
  exact fun n hn => ⟨_, _, hclass n, hclass' n, htracks.rel_head htracks' horder horder' hn⟩

/-! ## Locality -/

/-- Sessions that come about by any steps from a start. -/
def Reached (s : Session) : Prop :=
  ∃ config directory disk now s₀ steps,
    start config directory disk now = .ok s₀ ∧ s = after s₀ steps

theorem Reached.keepsOrder (h : Reached s) : KeepsOrder s.memory := by
  obtain ⟨config, directory, disk, now, s₀, steps, hstart, rfl⟩ := h
  exact keepsOrder_of_start hstart steps

/-- A payload is local to a set of names that has its class and all names that the classes found for
the names refer to.

It is the same, at every depth and up to faults, in any two sessions in which the names lead to
classes that are declared in the same way, or to none in both; the sessions may have different
disks, roots and histories.

Therefore it is the same as in a session that starts, after any steps of a session that starts on
another disk, as long as on each disk the same build file is found and each file declares the same
classes of these names: files that declare none of them may be there or not, be written and be
deleted. -/
theorem payload_local (S : Set String) (className : String) (hclass : className ∈ S) :
    (∀ s t r r', Reached s → Reached t →
      PayloadRules.ofConfig s.rules.config = PayloadRules.ofConfig t.rules.config →
      SameClasses S s r t r' → ClosedUnderReference S s r → ∀ depth,
      (perform (ask r (.payload className depth)) s).1 =
        (perform (ask r' (.payload className depth)) t).1) ∧
    ∀ config directory disk₀ now₀ s₀ disk now s steps r,
      start config directory disk₀ now₀ = .ok s₀ → start config directory disk now = .ok s →
      disk₀.Plain → disk.Plain → PlainFolder s₀.context (Path.resolve directory r) →
      (∀ before, before <+: steps →
        Spares s₀.context (Path.resolve directory r) S (after s before).disk) →
      (∃ k, (perform (ask r (.classOf className)) s₀).1 = .ok k) →
      (∃ k, (perform (ask r (.classOf className)) (after s steps)).1 = .ok k) →
      ClosedUnderReference S s₀ r → ∀ depth,
      (perform (ask r (.payload className depth)) (after s steps)).1 =
        (perform (ask r (.payload className depth)) s₀).1 := by
  constructor
  · intro s t r r' hs ht hconfig hsame hclosed depth
    exact payload_eq_of_sameClasses hs.keepsOrder ht.keepsOrder hconfig hclass hsame hclosed depth
  · rintro config directory disk₀ now₀ s₀ disk now s steps r hstart₀ hstart hplain₀ hplain hfolder
      hspares ⟨k, hk⟩ ⟨k', hk'⟩ hclosed depth
    have hsame := sameClasses_after hstart₀ hstart hplain₀ hplain hfolder hspares hk hk'
    have hrules : s.rules = s₀.rules :=
      congrArg Context.rules (context_of_starts hstart₀ hstart)
    have hconfig : PayloadRules.ofConfig s₀.rules.config =
        PayloadRules.ofConfig (after s steps).rules.config := by rw [rules_after, hrules]
    exact (payload_eq_of_sameClasses (keepsOrder_of_start hstart₀ [])
      (keepsOrder_of_start hstart steps) hconfig hclass hsame hclosed depth).symm

/-- Whether the classes found for some names refer to these names only. -/
def refersWithin (names : List String) (s : Session) (r : Path) : Bool :=
  (PayloadRules.ofConfig s.rules.config).toOption.any fun rules =>
    names.all fun n => (perform (ask r (.classOf n)) s).1.toOption.all fun k =>
      k.all (rules.refersWithin names)

theorem closedUnderReference_of_refersWithin {names : List String}
    (h : refersWithin names s r = true) : ClosedUnderReference { n | n ∈ names } s r := by
  obtain ⟨rules, hrules, hall⟩ := exists_ok_of_any h
  intro rules' hrules' n hn k hk
  cases hrules.symm.trans hrules'
  have hname := List.all_eq_true.1 hall n hn
  rw [hk] at hname
  exact PayloadRules.closedAt_of_refersWithin hname

/-- With rules that do not break off, a class can be looked up whatever is kept. -/
theorem exists_classOf (h : s.rules.Whole) (r : Path) (name : String) :
    ∃ k, (perform (ask r (.classOf name)) s).1 = .ok k := by
  obtain ⟨rules, hrules, hwhole⟩ := h.discovery
  obtain ⟨build, hbuild⟩ := hwhole.findBuildFile s.disk (Path.resolve s.directory r)
  obtain ⟨p, notes, hload⟩ := hwhole.load s.disk s.languages (Path.resolve s.directory r)
  cases hkept : s.memory.project ⟨Path.resolve s.directory r, build⟩ with
  | some q => exact ⟨_, perform_classOf_eq rfl
      (projectOf_eq_ok_iff.2 ⟨rules, build, hrules, hbuild, rfl, .inl hkept⟩) name⟩
  | none => exact ⟨_, perform_classOf_eq rfl
      (projectOf_eq_ok_iff.2 ⟨rules, build, hrules, hbuild, rfl, .inr ⟨hkept, notes, hload⟩⟩) name⟩

end Session

end

namespace Session

/-- A file with another class is written next to two classes, the root is dropped and read anew with
it, and the file is deleted again: the payload is the same all the time. -/
theorem payload_local_among_others :
    let root : Path := ⟨"/", ["app"]⟩
    let names : List String := ["A", "B"]
    let other : Path := ⟨"/", ["app", "src", "a.py"]⟩
    let steps : List Step := [.ask root (.payload "A" none),
      .write other "class Z: 0".toUTF8.toList, .invalidate root, .ask root (.classOf "Z"),
      .delete other]
    ∃ s v, start .default ⟨"/", []⟩ ⟨[(["app", "src", "m.py"],
        "class A:\n    b: B\nclass B:\n    x: int\n".toUTF8.toList)], []⟩ (.zero false) = .ok s ∧
      (∀ before, before <+: steps →
        Spares s.context root { n | n ∈ names } (s.after before).disk) ∧
      ClosedUnderReference { n | n ∈ names } s root ∧
      SameClasses { n | n ∈ names } s root (s.after steps) root ∧
      (perform (ask root (.payload "A" none)) s).1 = .ok (some v) ∧
      (∀ depth, (perform (ask root (.payload "A" depth)) s).1 =
        (perform (ask root (.payload "A" depth)) (s.after steps)).1) ∧
      ∀ before, before <+: steps → ∀ depth,
        (perform (ask root (.payload "A" depth)) (s.after before)).1 =
          (perform (ask root (.payload "A" depth)) s).1 := by
  intro root names other steps
  let disk : Disk := ⟨[(["app", "src", "m.py"],
    "class A:\n    b: B\nclass B:\n    x: int\n".toUTF8.toList)], []⟩
  let added := disk.write other "class Z: 0".toUTF8.toList
  obtain ⟨s, hs, hcheck⟩ := exists_start_of_any .default ⟨"/", []⟩ disk (.zero false)
    (fun s => refersWithin names s root &&
      ((perform (ask root (.payload "A" none)) s).1.toOption.any Option.isSome) &&
      decide (buildOf { s.context with disk := added } root = buildOf s.context root) &&
      decide (buildOf { s.context with disk := added.remove other } root =
        buildOf s.context root) &&
      (names.all fun n => (Project.classOn disk s.languages other n).isNone) &&
      (names.all fun n => (Project.classOn added s.languages other n).isNone) &&
      ((DiscoveryRules.ofConfig s.rules.config).toOption.any fun rules =>
        (rules.findBuildFile disk root).toOption.any fun build =>
          (rules.folder root build).toOption.any fun folder => !folder.parts.contains ".."))
    (by decide +kernel)
  simp only [Bool.and_eq_true, decide_eq_true_eq, List.all_eq_true, Option.isNone_iff_eq_none]
    at hcheck
  obtain ⟨⟨⟨⟨⟨⟨hclosed, hpayload⟩, hbuild⟩, hbuild'⟩, hold⟩, hnew⟩, hfolder⟩ := hcheck
  have hdisk : s.context.disk = disk := (views_of_start hs).2.1
  have hclosed := closedUnderReference_of_refersWithin hclosed
  obtain ⟨_, hpayload, hsome⟩ := exists_ok_of_any hpayload
  obtain ⟨v, rfl⟩ := Option.isSome_iff_exists.1 hsome
  -- the two disks of the run besides the first one
  have hadded : Spares s.context root { n | n ∈ names } added := by
    refine ⟨hbuild, ?_⟩
    rw [hdisk]
    exact Project.sameDeclarations_write (by decide) hold hnew
  have hremoved : Spares s.context root { n | n ∈ names } (added.remove other) :=
    ⟨hbuild', hadded.same.trans (Project.sameDeclarations_remove (by decide) hnew)⟩
  have hspares : ∀ before, before <+: steps →
      Spares s.context root { n | n ∈ names } (s.after before).disk := by
    have h₁ : (s.after (steps.take 1)).disk = disk :=
      (disk_apply (e := .ask root (.payload "A" none)) rfl s).trans hdisk
    have h₂ : (s.after (steps.take 2)).disk = added :=
      congrArg (Disk.write · other "class Z: 0".toUTF8.toList) h₁
    have h₃ : (s.after (steps.take 3)).disk = added :=
      (disk_apply (e := .invalidate root) rfl _).trans h₂
    have h₄ : (s.after (steps.take 4)).disk = added :=
      (disk_apply (e := .ask root (.classOf "Z")) rfl _).trans h₃
    have h₅ : (s.after (steps.take 5)).disk = added.remove other :=
      congrArg (Disk.remove · other) h₄
    have hfirst : Spares s.context root { n | n ∈ names } disk := hdisk ▸ .refl ..
    intro before hbefore
    rw [List.prefix_iff_eq_take] at hbefore
    have hlength : before.length ≤ 5 := by
      have hlength := congrArg List.length hbefore
      rw [List.length_take] at hlength
      exact hlength ▸ Nat.min_le_right ..
    rw [hbefore]
    interval_cases before.length
    · exact .refl ..
    · exact h₁ ▸ hfirst
    · exact h₂ ▸ hadded
    · exact h₃ ▸ hadded
    · exact h₄ ▸ hadded
    · exact h₅ ▸ hremoved
  have hplain : disk.Plain := by
    intro f hf
    rw [List.mem_singleton.1 hf]
    decide
  have hfolder : PlainFolder s.context root := by
    obtain ⟨rules, hrules, hfolder⟩ := exists_ok_of_any hfolder
    obtain ⟨build, hbuild, hfolder⟩ := exists_ok_of_any hfolder
    obtain ⟨folder, hfolder, hup⟩ := exists_ok_of_any hfolder
    intro rules' build' folder' hrules' hbuild' hfolder'
    cases hrules.symm.trans hrules'
    rw [hdisk] at hbuild'
    cases hbuild.symm.trans hbuild'
    cases hfolder.symm.trans hfolder'
    simpa using hup
  have hanswer : ∀ before, ∃ k, (perform (ask root (.classOf "A")) (s.after before)).1 = .ok k := by
    intro before
    obtain ⟨s', hs', hwhole⟩ := exists_start_default ⟨"/", []⟩ disk (.zero false)
    cases hs.symm.trans hs'
    exact exists_classOf (rules_after before s ▸ hwhole) root "A"
  have hmem : "A" ∈ { n | n ∈ names } := List.mem_cons_self
  obtain ⟨k, hk⟩ := hanswer []
  obtain ⟨k', hk'⟩ := hanswer steps
  have hsame : SameClasses { n | n ∈ names } s root (s.after steps) root :=
    sameClasses_after hs hs hplain hplain hfolder hspares hk hk'
  refine ⟨s, v, hs, hspares, hclosed, hsame, hpayload, ?_, ?_⟩
  · exact (payload_local _ "A" hmem).1 s (s.after steps) root root
      ⟨_, _, _, _, s, [], hs, rfl⟩ ⟨_, _, _, _, s, steps, hs, rfl⟩ (by rw [rules_after]) hsame
      hclosed
  · intro before hbefore
    exact (payload_local _ "A" hmem).2 _ _ _ _ s _ _ s before root hs hs hplain hplain hfolder
      (fun b hb => hspares b (hb.trans hbefore)) (hanswer []) (hanswer before) hclosed

/-- A file that marks a root as a project declares no class, and yet the payload of a class changes
when it is added. -/
theorem payload_changes_with_build :
    let root : Path := ⟨"/", ["app"]⟩
    let names : List String := ["C"]
    let change : Step := .write ⟨"/", ["app", "pyproject.toml"]⟩ []
    ∃ s v, start .default ⟨"/", []⟩
        ⟨[(["app", "a.py"], "class C:\n    x: int\n".toUTF8.toList)], []⟩ (.zero false) = .ok s ∧
      Project.SameDeclarations s.languages { n | n ∈ names } s.disk (change.apply s).disk ∧
      ClosedUnderReference { n | n ∈ names } s root ∧
      ClosedUnderReference { n | n ∈ names } (change.apply s) root ∧
      (perform (ask root (.payload "C" none)) s).1 = .ok none ∧
      (perform (ask root (.payload "C" none)) (change.apply s)).1 = .ok (some v) := by
  intro root names change
  let build : Path := ⟨"/", ["app", "pyproject.toml"]⟩
  obtain ⟨s, hs, hcheck⟩ := exists_start_of_any .default ⟨"/", []⟩
    ⟨[(["app", "a.py"], "class C:\n    x: int\n".toUTF8.toList)], []⟩ (.zero false)
    (fun s => refersWithin names s root && refersWithin names (change.apply s) root &&
      ((perform (ask root (.payload "C" none)) s).1.toOption.any Option.isNone) &&
      ((perform (ask root (.payload "C" none)) (change.apply s)).1.toOption.any Option.isSome) &&
      (names.all fun n => (Project.classOn s.disk s.languages build n).isNone) &&
      (names.all fun n => (Project.classOn (change.apply s).disk s.languages build n).isNone))
    (by decide +kernel)
  simp only [Bool.and_eq_true, List.all_eq_true, Option.isNone_iff_eq_none] at hcheck
  obtain ⟨⟨⟨⟨⟨hclosed, hclosed'⟩, hnone⟩, hsome⟩, hold⟩, hnew⟩ := hcheck
  obtain ⟨_, hbefore, hnone⟩ := exists_ok_of_any hnone
  obtain ⟨_, hafter, hsome⟩ := exists_ok_of_any hsome
  obtain ⟨v, rfl⟩ := Option.isSome_iff_exists.1 hsome
  rw [Option.isNone_iff_eq_none.1 hnone] at hbefore
  exact ⟨s, v, hs, Project.sameDeclarations_write (by decide) hold hnew,
    closedUnderReference_of_refersWithin hclosed, closedUnderReference_of_refersWithin hclosed',
    hbefore, hafter⟩

end Session

end RouteLens
