import RouteLens.Proofs.Payload.Locality
import RouteLens.Proofs.Project.Extent
import RouteLens.Proofs.Project.PrunedWalk
import RouteLens.Proofs.Session.BuildChange

/-!
# Payloads in any session

What a session keeps for a root may be out of date: files were written and deleted after they were
read, and another build file may have come up since.  A class is then found by `classIn`: at the
place that is remembered if it is still declared there, and else in the first file that declares it.

* `Project.Orderly` is what is true of every project that a session keeps, however old it is;
* the look-ups of one inquiry do not get in each other's way (`classIn_of_lookUp`), so that an
  inquiry comes to what `classIn` gives (`perform_run_eq`);
* therefore the payload of a class is what the classes found for a closed set of names make it, in
  any two sessions (`payload_eq_of_sameClasses`).
-/

namespace RouteLens

variable {edition : Nat} [CharacterNames edition]

namespace Project

variable {d : Disk} {ls : Languages} {p : Project} {path : Path} {name : String} {k : ClassDecl}

/-- The files of a project are distinct, and what was read of it are files of it, each under its own
path. -/
structure Orderly (p : Project) : Prop where
  distinct : p.files.Nodup
  inPlace : p.UnitsInPlace
  ofFiles : ∀ path u, p.units.lookup path = some u → path ∈ p.files

namespace Orderly

theorem remember (h : p.Orderly) (path : Path) : (p.remember d ls path).Orderly where
  distinct := by
    rw [files_remember]
    exact h.distinct
  inPlace := h.inPlace.remember path
  ofFiles x u hx := by
    rw [lookup_remember] at hx
    rw [files_remember]
    split at hx
    case isTrue hpath => exact hpath.1 ▸ hpath.2.2
    case isFalse => exact h.ofFiles x u hx

theorem foldl_remember (h : p.Orderly) (paths : List Path) :
    (paths.foldl (Project.remember d ls) p).Orderly := by
  induction paths generalizing p with
  | nil => exact h
  | cons x xs ih => exact ih (h.remember x)

theorem search (h : p.Orderly) (name : String) (paths : List Path) :
    (Project.search d ls name p paths).Orderly := by
  induction paths generalizing p with
  | nil => exact h
  | cons x xs ih =>
    unfold Project.search
    split
    · exact h.remember x
    · exact ih (h.remember x)

theorem nodup_of_discover {rules : DiscoveryRules} {folder : Path} {files : List Path}
    (h : rules.discover d ls folder = .ok files) : files.Nodup := by
  obtain ⟨-, -, h⟩ := bind_eq_ok_iff.1 h
  cases h
  exact Disk.nodup_discover ..

theorem of_load {rules : DiscoveryRules} {root : Path} {notes : List Note}
    (h : load d ls rules root = .ok (p, notes)) : p.Orderly := by
  obtain ⟨q, paths, hnil, ⟨folder, hfiles⟩, rfl⟩ := exists_foldl_of_load h
  refine foldl_remember ⟨nodup_of_discover hfiles, fun path u hu => ?_, fun path u hu => ?_⟩ paths
  · simp [hnil] at hu
  · simp [hnil] at hu

theorem givesFiles (h : p.Orderly) : p.GivesFiles d ls := by
  intro path u hu
  unfold unitOf at hu
  cases hlookup : p.units.lookup path with
  | some v =>
    simp only [hlookup] at hu
    subst hu
    exact ⟨h.ofFiles path _ hlookup, h.inPlace path u hlookup⟩
  | none =>
    simp only [hlookup] at hu
    split at hu
    case isTrue hmem => exact ⟨List.contains_iff_mem.1 hmem, path_of_unitOn hu⟩
    case isFalse => cases hu

end Orderly

theorem key_mem_classKeys {u : SourceUnit} (hpath : path ∈ p.files)
    (hu : p.unitOf d ls path = some u) (hk : u.findClass? name = some k) :
    k.key ∈ p.classKeys d ls :=
  List.mem_flatMap.2 ⟨u, List.mem_filterMap.2 ⟨path, hpath, hu⟩,
    List.mem_map_of_mem (List.mem_of_find?_eq_some hk)⟩

end Project

namespace Session

variable {s t : Session} {d : Disk} {ls : Languages} {root r : Path} {key : ProjectKey}
  {p q : Project} {name : String} {place : Option Path} {k : ClassDecl} {α : Type}

/-! ## Projects that are kept -/

theorem orderly_lookUp (h : p.Orderly) (name : String) (place : Option Path) :
    (lookUp d ls name p place).project.Orderly := by
  have hplace : ((place.map (p.remember d ls)).getD p).Orderly := by
    cases place with
    | none => exact h
    | some path => exact h.remember path
  unfold lookUp
  split
  · exact hplace
  · exact hplace.search name _

/-- Every project that a session keeps is orderly. -/
def KeepsOrder (m : Memory) : Prop :=
  ∀ key p, m.project key = some p → p.Orderly

theorem KeepsOrder.keep {m : Memory} (h : KeepsOrder m) (hp : p.Orderly) (key : ProjectKey) :
    KeepsOrder (m.keep key p) := by
  intro key' p' hp'
  by_cases hkey : key' = key
  · subst hkey
    rw [Memory.project_keep] at hp'
    cases hp'
    exact hp
  · rw [Memory.project_keep_of_ne hkey] at hp'
    exact h key' p' hp'

theorem KeepsOrder.projectOf {c : Context} {m : Memory} (h : KeepsOrder m)
    (hp : projectOf c m root = .ok (key, p)) : p.Orderly := by
  obtain ⟨rules, build, -, -, -, hkept | ⟨-, notes, hload⟩⟩ := projectOf_eq_ok_iff.1 hp
  · exact h _ p hkept
  · exact .of_load hload

theorem fullyClosed_keepsOrder (root : Path) : FullyClosed root fun s t =>
    t.context = s.context ∧ (KeepsOrder s.memory → KeepsOrder t.memory) := by
  refine .of_touches (G := fun _ m m' => KeepsOrder m → KeepsOrder m') Iff.rfl
    (fun h h' => h' ∘ h) fun htouches h => ?_
  cases htouches with
  | nothing => exact h
  | files paths hp => exact h.keep ((h.projectOf hp).foldl_remember _) _
  | lookUp name hp => exact h.keep (orderly_lookUp (h.projectOf hp) ..) _
  | result className methodName e => exact h

/-- No step puts a project into disorder, not even one that changes files. -/
theorem KeepsOrder.apply (h : KeepsOrder s.memory) (e : Step) : KeepsOrder (e.apply s).memory := by
  cases e with
  | ask r q => exact ((fullyClosed_keepsOrder _).ask q rfl).2 h
  | openProject r => exact ((fullyClosed_keepsOrder _).openProject rfl).2 h
  | invalidate r =>
    rw [(apply_invalidate rfl).2]
    intro key p hp
    simp only [Memory.drop] at hp
    split at hp
    · cases hp
    · exact h key p hp
  | clearResults => exact h
  | advance seconds => exact h
  | write path bytes => exact h
  | delete path => exact h

theorem KeepsOrder.after (h : KeepsOrder s.memory) (steps : List Step) :
    KeepsOrder (s.after steps).memory := by
  induction steps generalizing s with
  | nil => exact h
  | cons e steps ih => exact ih (h.apply e)

theorem keepsOrder_of_start {config : Config} {directory : Path} {disk : Disk} {now : Binary64}
    (h : start config directory disk now = .ok s) (steps : List Step) :
    KeepsOrder (s.after steps).memory := by
  refine KeepsOrder.after ?_ steps
  rw [(views_of_start h).2.2]
  rintro key p ⟨⟩

/-! ## Look-ups in any session -/

/-- The class that a name leads to in the project of a root. -/
def classIn (s : Session) (root : Path) (p : Project) (name : String) : Option ClassDecl :=
  (lookUp s.disk s.languages name p (s.memory.place ⟨root, name⟩)).answer

/-- A class that is found is declared by the unit of its file. -/
theorem exists_unit_of_classIn (hp : p.Orderly) (hk : classIn s root p name = some k) :
    ∃ u, p.unitOf s.disk s.languages k.unit.path = some u ∧ u.findClass? name = some k := by
  have hfound : ∃ path, (p.unitOf s.disk s.languages path).bind (·.findClass? name) = some k := by
    rw [classIn, answer_lookUp, Option.or_eq_some_iff] at hk
    obtain hk | ⟨-, hk⟩ := hk
    · obtain ⟨path, -, hk⟩ := Option.bind_eq_some_iff.1 hk
      exact ⟨path, hk⟩
    · exact ⟨_, hp.givesFiles.class_of_first hk⟩
  obtain ⟨path, hpath⟩ := hfound
  rw [(hp.givesFiles.mem_and_path hpath).2]
  exact Option.bind_eq_some_iff.1 hpath

/-- A class that is found is one of a file of the project, and has the name that was looked up. -/
theorem classIn_eq_some (hp : p.Orderly) (hk : classIn s root p name = some k) :
    k.name = name ∧ k.key ∈ p.classKeys s.disk s.languages := by
  obtain ⟨u, hu, hclass⟩ := exists_unit_of_classIn hp hk
  exact ⟨by simpa using List.find?_some hclass,
    Project.key_mem_classKeys (hp.givesFiles _ _ hu).1 hu hclass⟩

/-- The place of a class and its file tell it from the others that are found. -/
theorem tellsApart_classIn (hp : p.Orderly) : PayloadRules.TellsApart (classIn s root p) := by
  intro n m k l hk hl hkey
  have hpath : k.unit.path = l.unit.path := congrArg Prod.fst hkey
  have hnumber : k.number = l.number := congrArg Prod.snd hkey
  obtain ⟨u, hu, hk⟩ := exists_unit_of_classIn hp hk
  obtain ⟨v, hv, hl⟩ := exists_unit_of_classIn hp hl
  cases hu.symm.trans (hpath ▸ hv)
  exact SourceUnit.eq_of_number_eq (List.mem_of_find?_eq_some hk) (List.mem_of_find?_eq_some hl)
    hnumber

theorem classIn_of_extends (hcontext : t.context = s.context)
    (hplace : ∀ n, t.memory.place ⟨root, n⟩ = s.memory.place ⟨root, n⟩)
    (hext : p.Extends s.disk s.languages q) : classIn t root q = classIn s root p := by
  have hdisk : t.disk = s.disk := congrArg Context.disk hcontext
  have hlanguages : t.languages = s.languages := congrArg Context.languages hcontext
  funext n
  rw [classIn, classIn, hdisk, hlanguages, hplace, answer_lookUp_of_extends hext]

/-- After a class was looked up, every name still leads to the class that it led to before. -/
theorem classIn_of_lookUp {hits scans : Nat} (hp : p.Orderly) (name : String) :
    let l := lookUp s.disk s.languages name p (s.memory.place ⟨root, name⟩)
    Turns s ((s.memory.keep key l.project).setPlace ⟨root, name⟩ l.place) hits scans t →
      classIn t root l.project = classIn s root p := by
  intro l hturn
  have hdisk : t.disk = s.disk := congrArg Context.disk hturn.context_eq
  have hlanguages : t.languages = s.languages := congrArg Context.languages hturn.context_eq
  funext n
  rw [classIn, classIn, hdisk, hlanguages, hturn.memory_eq,
    answer_lookUp_of_extends (extends_lookUp ..)]
  by_cases hn : n = name
  · subst hn
    rw [Memory.place_setPlace]
    exact answer_lookUp_place hp.givesFiles (.refl ..) n _
  · rw [Memory.place_setPlace_of_ne fun e => hn (ClassKey.mk.inj e).2]
    rfl

theorem Turns.projectOf_eq {m : Memory} {hits scans : Nat} (h : Turns s m hits scans t)
    (hp : projectOf s.context s.memory root = .ok (key, p)) (hq : m.project key = some q) :
    projectOf t.context t.memory root = .ok (key, q) := by
  rw [h.context_eq, h.memory_eq]
  exact projectOf_of_kept hp hq

/-- What an inquiry comes to in any session. -/
theorem perform_run_eq (q : Inquiry α) (hr : Path.resolve s.directory r = root)
    (hp : projectOf s.context s.memory root = .ok (key, p)) (horder : p.Orderly) :
    (perform (run r q) s).1 =
      q.resolve (classIn s root p) (p.declarations s.disk s.languages) := by
  induction q generalizing s p with
  | done a => rfl
  | fail f => rfl
  | find name next ih =>
    obtain ⟨t, ht, hturn⟩ := perform_findClass name hr hp
    have hdisk : t.disk = s.disk := congrArg Context.disk hturn.context_eq
    have hlanguages : t.languages = s.languages := congrArg Context.languages hturn.context_eq
    have hdirectory : t.directory = s.directory := congrArg Context.directory hturn.context_eq
    have hkept := hturn.projectOf_eq hp Memory.project_keep
    have hdeclarations := funext (extends_lookUp s.disk s.languages name p
      (s.memory.place ⟨root, name⟩)).declarations_eq
    rw [run, perform_bind_ok ht, ih _ (hdirectory ▸ hr) hkept (orderly_lookUp horder ..),
      classIn_of_lookUp horder name hturn, hdisk, hlanguages, hdeclarations]
    rfl
  | declarations name next ih =>
    obtain ⟨t, ht, hturn⟩ := perform_findDeclarations name hr hp
    have hdisk : t.disk = s.disk := congrArg Context.disk hturn.context_eq
    have hlanguages : t.languages = s.languages := congrArg Context.languages hturn.context_eq
    have hdirectory : t.directory = s.directory := congrArg Context.directory hturn.context_eq
    have hkept := hturn.projectOf_eq hp Memory.project_keep
    have hext := Project.extends_foldl_remember s.disk s.languages p p.files
    rw [run, perform_bind_ok ht, ih _ (hdirectory ▸ hr) hkept (horder.foldl_remember _),
      classIn_of_extends hturn.context_eq (fun n => by rw [hturn.memory_eq]; rfl) hext, hdisk,
      hlanguages, funext hext.declarations_eq]
    rfl
  | note n next ih => exact ih hr hp horder

/-! ## Payloads -/

theorem perform_classOf_eq (hr : Path.resolve s.directory r = root)
    (hp : projectOf s.context s.memory root = .ok (key, p)) (name : String) :
    (perform (ask r (.classOf name)) s).1 = .ok (classIn s root p name) := by
  rw [perform_classOf, findClass_eq_lookUp hr, hp]
  rfl

/-- The size of a project is a limit that suffices for the classes that names lead to. -/
theorem suffices_classIn (s : Session) (root : Path) (hp : p.Orderly) :
    PayloadRules.Suffices (fun n => (classIn s root p n).toList) (p.size s.disk) := by
  refine ⟨(p.classKeys s.disk s.languages).toFinset, ?_,
    (List.toFinset_card_le _).trans Project.length_classKeys_le⟩
  rintro k ⟨n, hk⟩
  rw [Option.head?_toList] at hk
  exact List.mem_toFinset.2 (classIn_eq_some hp hk).2

/-- What a payload comes to in any session, with any limit that is large enough. -/
theorem perform_payload_eq {rules : PayloadRules} {limit : Nat}
    (hr : Path.resolve s.directory r = root)
    (hp : projectOf s.context s.memory root = .ok (key, p)) (horder : p.Orderly)
    (hrules : PayloadRules.ofConfig s.rules.config = .ok rules)
    (hlimit : PayloadRules.Suffices (fun n => (classIn s root p n).toList) limit)
    (className : String) (depth : Option Int) :
    (perform (ask r (.payload className depth)) s).1 =
      (synthesize rules limit className depth).resolve (classIn s root p)
        (fun n => (classIn s root p n).toList) := by
  obtain ⟨t, ht, hturn⟩ := perform_classLimit hr hp
  have hdirectory : t.directory = s.directory := congrArg Context.directory hturn.context_eq
  have hkept := hturn.projectOf_eq hp Memory.project_keep
  have hclasses : classIn t root p = classIn s root p :=
    classIn_of_extends hturn.context_eq (fun n => by rw [hturn.memory_eq]; rfl) (.refl p)
  -- the synthesis only looks up classes, so that it does not matter which ones are listed
  have htwins : PayloadRules.Twins rules Set.univ (classIn s root p) (classIn s root p) :=
    { same := fun n _ => ClassDecl.SameAs.rel_refl _
      named := fun n k hk => (classIn_eq_some horder hk).1
      keyed := tellsApart_classIn horder
      keyed' := tellsApart_classIn horder
      closed := fun _ _ _ _ => ⟨fun _ _ _ _ _ _ => trivial, fun _ _ _ _ _ _ => trivial⟩ }
  have hsize := (suffices_classIn s root horder).mono (Nat.le_succ _)
  rw [ask, samplePayload, perform_bind_ok (perform_get s), hrules,
    perform_bind_ok (perform_lift _ s), perform_bind_ok ht,
    perform_run_eq _ (hdirectory ▸ hr) hkept horder, hclasses,
    (alike_synthesize htwins _ trivial depth).resolve_eq _ fun n => (classIn s root p n).toList]
  have hcongr := synthesize_congr hsize hlimit rules className depth
  rw [← Inquiry.resolve_head, ← Inquiry.resolve_head] at hcongr
  simpa only [Option.head?_toList] using hcongr

theorem perform_payload_error {f : Fault} {className : String} {depth : Option Int} (r : Path)
    (h : PayloadRules.ofConfig s.rules.config = .error f) :
    perform (ask r (.payload className depth)) s = (.error f, s) := by
  rw [ask, samplePayload, perform_bind_ok (perform_get s), h,
    perform_bind_error (perform_lift _ s)]

/-- For the names of a set, the classes found in two sessions say the same, or none is found in
both. -/
def SameClasses (S : Set String) (s : Session) (r : Path) (t : Session) (r' : Path) : Prop :=
  ∀ n ∈ S, ∃ k k', (perform (ask r (.classOf n)) s).1 = .ok k ∧
    (perform (ask r' (.classOf n)) t).1 = .ok k' ∧ Option.Rel ClassDecl.SameAs k k'

/-- A set of names has all names that the classes found for its names refer to. -/
def ClosedUnderReference (S : Set String) (s : Session) (r : Path) : Prop :=
  ∀ rules, PayloadRules.ofConfig s.rules.config = .ok rules → ∀ n ∈ S, ∀ k,
    (perform (ask r (.classOf n)) s).1 = .ok (some k) → rules.ClosedAt S k

theorem exists_projectOf_of_classOf {k : Option ClassDecl}
    (hr : Path.resolve s.directory r = root)
    (h : (perform (ask r (.classOf name)) s).1 = .ok k) :
    ∃ key p, projectOf s.context s.memory root = .ok (key, p) := by
  rw [perform_classOf, findClass_eq_lookUp hr] at h
  cases hp : projectOf s.context s.memory root with
  | error f =>
    rw [hp] at h
    cases h
  | ok kp => exact ⟨kp.1, kp.2, rfl⟩

/-- The payload of a class depends on the classes found for a closed set of names, and on nothing
else that a session keeps or reads. -/
theorem payload_eq_of_sameClasses {S : Set String} {r' : Path} {className : String}
    (hs : KeepsOrder s.memory) (ht : KeepsOrder t.memory)
    (hconfig : PayloadRules.ofConfig s.rules.config = PayloadRules.ofConfig t.rules.config)
    (hclass : className ∈ S) (hsame : SameClasses S s r t r')
    (hclosed : ClosedUnderReference S s r) (depth : Option Int) :
    (perform (ask r (.payload className depth)) s).1 =
      (perform (ask r' (.payload className depth)) t).1 := by
  obtain ⟨k, k', hk, hk', -⟩ := hsame className hclass
  obtain ⟨key, p, hp⟩ := exists_projectOf_of_classOf rfl hk
  obtain ⟨key', p', hp'⟩ := exists_projectOf_of_classOf rfl hk'
  have horder := hs.projectOf hp
  have horder' := ht.projectOf hp'
  cases hrules : PayloadRules.ofConfig s.rules.config with
  | error f =>
    rw [perform_payload_error r hrules, perform_payload_error r' (hconfig.symm.trans hrules)]
  | ok rules =>
    have htwins : PayloadRules.Twins rules S (classIn s (Path.resolve s.directory r) p)
        (classIn t (Path.resolve t.directory r') p') :=
      { same := fun n hn => by
          obtain ⟨k, k', hk, hk', hrel⟩ := hsame n hn
          rw [perform_classOf_eq rfl hp] at hk
          rw [perform_classOf_eq rfl hp'] at hk'
          cases hk
          cases hk'
          exact hrel
        named := fun n k hk => (classIn_eq_some horder hk).1
        keyed := tellsApart_classIn horder
        keyed' := tellsApart_classIn horder'
        closed := fun n hn k hk => hclosed rules hrules n hn k (by
          rw [perform_classOf_eq rfl hp, hk]) }
    rw [perform_payload_eq rfl hp horder hrules
        ((suffices_classIn s _ horder).mono (Nat.le_max_left _ (p'.size t.disk))),
      perform_payload_eq rfl hp' horder' (hconfig.symm.trans hrules)
        ((suffices_classIn t _ horder').mono (Nat.le_max_right (p.size s.disk) _))]
    exact (alike_synthesize htwins _ hclass depth).resolve_eq _ _

end Session

end RouteLens
