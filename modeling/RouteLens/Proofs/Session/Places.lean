import RouteLens.Proofs.Session.Steps

/-!
# Remembered places of classes

A session remembers where it found a class.  As long as the same build file is found for a root, a
remembered place stands for the first declaration: every file before it has been read and has no
class of that name, and what was read stays (`Project.Locates`).  Files may change in the meantime.
-/

namespace RouteLens

section

variable {edition : Nat} [CharacterNames edition]

namespace Project

variable {d : Disk} {ls : Languages}

/-- A project that is loaded has read some of its files, and nothing else. -/
theorem exists_foldl_of_load {rules : DiscoveryRules} {root : Path} {p : Project}
    {notes : List Note} (h : load d ls rules root = .ok (p, notes)) :
    ∃ (q : Project) (paths : List Path), q.units = [] ∧
      (∃ folder, rules.discover d ls folder = .ok q.files) ∧ p = paths.foldl (remember d ls) q := by
  unfold load at h
  obtain ⟨build, -, h⟩ := bind_eq_ok_iff.1 h
  cases build with
  | some b =>
    obtain ⟨files, hfiles, h⟩ := bind_eq_ok_iff.1 h
    cases h
    exact ⟨⟨root, files, some b, []⟩, [], rfl, ⟨_, hfiles⟩, rfl⟩
  | none =>
    obtain ⟨text, -, h⟩ := bind_eq_ok_iff.1 h
    obtain ⟨files, hfiles, h⟩ := bind_eq_ok_iff.1 h
    obtain ⟨notes', hrun⟩ := unitsOf_run d ls ⟨root, files, none, []⟩ files []
    rw [hrun] at h
    cases h
    exact ⟨⟨root, files, none, []⟩, files, rfl, ⟨_, hfiles⟩, rfl⟩

theorem unitsInPlace_of_load {rules : DiscoveryRules} {root : Path} {p : Project}
    {notes : List Note} (h : load d ls rules root = .ok (p, notes)) : p.UnitsInPlace := by
  obtain ⟨q, paths, hnil, -, rfl⟩ := exists_foldl_of_load h
  refine UnitsInPlace.foldl_remember (fun path u hu => ?_) paths
  simp [hnil] at hu

end Project

namespace Session

/-- The build file that is found for a root. -/
def buildOf (c : Context) (root : Path) : Except Fault (Option Path) := do
  (← DiscoveryRules.ofConfig c.rules.config).findBuildFile c.disk root

variable {c : Context} {m m' m'' : Memory} {root r path : Path} {key : ProjectKey}
  {p q : Project} {name : String} {k : ClassDecl}

theorem buildOf_of_projectOf (h : projectOf c m root = .ok (key, p)) :
    buildOf c root = .ok key.build := by
  obtain ⟨rules, build, hrules, hbuild, rfl, -⟩ := projectOf_eq_ok_iff.1 h
  rw [buildOf, hrules, ok_bind, hbuild]

/-- A class is remembered at a path, and the project of the root locates it there. -/
structure Remembers (c : Context) (m : Memory) (root : Path) (name : String) (path : Path)
    (k : ClassDecl) : Prop where
  place_eq : m.place ⟨root, name⟩ = some path
  located : ∃ build p, buildOf c root = .ok build ∧ m.project ⟨root, build⟩ = some p ∧
    p.Locates name path k

/-- Every place that is remembered for a root is that of a first declaration. -/
structure Placed (c : Context) (m : Memory) (root : Path) : Prop where
  inPlace : ∀ build p, m.project ⟨root, build⟩ = some p → p.UnitsInPlace
  remembers : ∀ name path, m.place ⟨root, name⟩ = some path →
    ∃ k, Remembers c m root name path k

theorem Remembers.locates (h : Remembers c m root name path k)
    (hp : projectOf c m root = .ok (key, p)) : p.Locates name path k := by
  obtain ⟨build, q, hbuild, hq, hlocates⟩ := h.located
  have hkey : key = ⟨root, build⟩ := by
    have hroot := root_eq_of_projectOf hp
    have heq := Except.ok.inj (hbuild.symm.trans (buildOf_of_projectOf hp))
    cases key
    simp_all
  have hkept := projectOf_of_kept hp (hkey ▸ hq)
  rw [hp] at hkept
  cases hkept
  exact hlocates

theorem Placed.unitsInPlace (h : Placed c m root) (hp : projectOf c m root = .ok (key, p)) :
    p.UnitsInPlace := by
  obtain ⟨rules, build, -, -, rfl, hkept | ⟨-, notes, hload⟩⟩ := projectOf_eq_ok_iff.1 hp
  · exact h.inPlace build p hkept
  · exact Project.unitsInPlace_of_load hload

/-! ## What look-ups add -/

/-- What was kept for a root is kept on, with more units read, and places stay right. -/
structure Gains (root : Path) (c : Context) (m m' : Memory) : Prop where
  project : ∀ build p, m.project ⟨root, build⟩ = some p →
    ∃ q, m'.project ⟨root, build⟩ = some q ∧ p.Extends c.disk c.languages q
  place : ∀ name path, m.place ⟨root, name⟩ = some path → m'.place ⟨root, name⟩ = some path
  placed : Placed c m' root

theorem Gains.refl (h : Placed c m root) : Gains root c m m :=
  ⟨fun _ p hp => ⟨p, hp, .refl p⟩, fun _ _ hp => hp, h⟩

theorem Gains.trans (h : Gains root c m m') (h' : Gains root c m' m'') : Gains root c m m'' where
  project build p hp := by
    obtain ⟨q, hq, hext⟩ := h.project build p hp
    obtain ⟨r, hr, hext'⟩ := h'.project build q hq
    exact ⟨r, hr, hext.trans hext'⟩
  place name path hp := h'.place name path (h.place name path hp)
  placed := h'.placed

theorem Remembers.of_extends (h : Remembers c m root name path k)
    (hproject : ∀ build p, m.project ⟨root, build⟩ = some p →
      ∃ q, m'.project ⟨root, build⟩ = some q ∧ p.Extends c.disk c.languages q)
    (hplace : m'.place ⟨root, name⟩ = some path) : Remembers c m' root name path k := by
  obtain ⟨build, p, hbuild, hp, hlocates⟩ := h.located
  obtain ⟨q, hq, hext⟩ := hproject build p hp
  exact ⟨hplace, build, q, hbuild, hq, hlocates.extends hext⟩

theorem Gains.remembers (h : Gains root c m m') (hk : Remembers c m root name path k) :
    Remembers c m' root name path k :=
  hk.of_extends h.project (h.place name path hk.place_eq)

theorem project_keep_extends (hp : projectOf c m root = .ok (key, p))
    (hext : p.Extends c.disk c.languages q) (build : Option Path) (p' : Project)
    (hp' : m.project ⟨root, build⟩ = some p') :
    ∃ q', (m.keep key q).project ⟨root, build⟩ = some q' ∧
      p'.Extends c.disk c.languages q' := by
  by_cases hkey : (⟨root, build⟩ : ProjectKey) = key
  · subst hkey
    have hkept := projectOf_of_kept hp hp'
    rw [hp] at hkept
    cases hkept
    exact ⟨q, Memory.project_keep, hext⟩
  · exact ⟨p', by rw [Memory.project_keep_of_ne hkey, hp'], .refl p'⟩

theorem inPlace_keep (h : Placed c m root) (hq : q.UnitsInPlace) (build : Option Path)
    (p' : Project) (hp' : (m.keep key q).project ⟨root, build⟩ = some p') : p'.UnitsInPlace := by
  by_cases hkey : (⟨root, build⟩ : ProjectKey) = key
  · subst hkey
    rw [Memory.project_keep] at hp'
    cases hp'
    exact hq
  · rw [Memory.project_keep_of_ne hkey] at hp'
    exact h.inPlace build p' hp'

theorem gains_keep (h : Placed c m root) (hp : projectOf c m root = .ok (key, p))
    (hext : p.Extends c.disk c.languages q) (hq : q.UnitsInPlace) :
    Gains root c m (m.keep key q) where
  project := project_keep_extends hp hext
  place _ _ hplace := hplace
  placed :=
    { inPlace := inPlace_keep h hq
      remembers := fun name path hplace => by
        obtain ⟨k, hk⟩ := h.remembers name path hplace
        exact ⟨k, hk.of_extends (project_keep_extends hp hext) hplace⟩ }

theorem lookUp_of_locates (h : p.Locates name path k) (d : Disk) (ls : Languages) :
    lookUp d ls name p (some path) = ⟨some k, p.remember d ls path, some path, true⟩ :=
  lookUp_of_found (h.unitOf_bind d ls)

/-- A look-up gives the first declaration. -/
theorem Placed.answer_lookUp (h : Placed c m root) (hp : projectOf c m root = .ok (key, p))
    (name : String) :
    (lookUp c.disk c.languages name p (m.place ⟨root, name⟩)).answer =
      (p.declarations c.disk c.languages name).head? := by
  cases hplace : m.place ⟨root, name⟩ with
  | none => rw [lookUp_none]
  | some path =>
    obtain ⟨k, hk⟩ := h.remembers name path hplace
    have hlocates := hk.locates hp
    rw [lookUp_of_locates hlocates, hlocates.head_declarations]

/-- A look-up keeps what was kept for its root, with the units read on the way and the place
found. -/
theorem Placed.gains_lookUp (h : Placed c m root) (hp : projectOf c m root = .ok (key, p)) :
    let l := lookUp c.disk c.languages name p (m.place ⟨root, name⟩)
    Gains root c m ((m.keep key l.project).setPlace ⟨root, name⟩ l.place) := by
  cases hplace : m.place ⟨root, name⟩ with
  | some path =>
    obtain ⟨k, hk⟩ := h.remembers name path hplace
    rw [lookUp_of_locates (hk.locates hp)]
    simp only
    rw [Memory.setPlace_eq_self (by exact hplace)]
    exact gains_keep h hp (Project.extends_remember ..) ((h.unitsInPlace hp).remember path)
  | none =>
    rw [lookUp_none]
    have hkeep := gains_keep h hp (Project.extends_search c.disk c.languages name p p.files)
      ((h.unitsInPlace hp).search name p.files)
    simp only
    refine ⟨hkeep.project, fun n x hx => ?_, hkeep.placed.inPlace, fun n x hx => ?_⟩
    · have hne : (⟨root, n⟩ : ClassKey) ≠ ⟨root, name⟩ := by
        rintro heq
        rw [heq, hplace] at hx
        cases hx
      rw [Memory.place_setPlace_of_ne hne, hkeep.place n x hx]
    · by_cases hn : n = name
      · subst hn
        rw [Memory.place_setPlace] at hx
        obtain ⟨k, hk, rfl⟩ := Option.map_eq_some_iff.1 hx
        refine ⟨k, ?_, key.build, _, buildOf_of_projectOf hp, ?_,
          (h.unitsInPlace hp).locates_search hk⟩
        · rw [Memory.place_setPlace, hk, Option.map_some]
        · rw [← root_eq_of_projectOf hp]
          exact Memory.project_keep
      · have hne : (⟨root, n⟩ : ClassKey) ≠ ⟨root, name⟩ := by
          rintro ⟨⟩
          exact hn rfl
        have hold := hx
        rw [Memory.place_setPlace_of_ne hne] at hold
        obtain ⟨k, hk⟩ := hkeep.placed.remembers n x hold
        exact ⟨k, hk.of_extends (fun _ p hp => ⟨p, hp, .refl p⟩) hx⟩

/-- Every query about a root keeps its places right. -/
theorem fullyClosed_gains (root : Path) : FullyClosed root fun s t =>
    t.context = s.context ∧
      (Placed s.context s.memory root → Gains root s.context s.memory t.memory) := by
  refine .of_touches (G := fun c m m' => Placed c m root → Gains root c m m') Iff.rfl
    (fun hgain hgain' h => (hgain h).trans (hgain' (hgain h).placed)) fun htouches h => ?_
  cases htouches with
  | nothing => exact .refl h
  | files paths hp =>
    exact gains_keep h hp (Project.extends_foldl_remember ..)
      ((h.unitsInPlace hp).foldl_remember _)
  | lookUp name hp => exact h.gains_lookUp hp
  | result className methodName e =>
    refine ⟨fun _ p hp => ⟨p, hp, .refl p⟩, fun _ _ hp => hp, h.inPlace, fun n x hx => ?_⟩
    obtain ⟨k, hk⟩ := h.remembers n x hx
    exact ⟨k, hk.place_eq, hk.located⟩

/-! ## Steps and runs -/

variable {c' : Context} {s : Session} {e : Step}

theorem Remembers.congr (hk : Remembers c m root name path k)
    (hbuild : buildOf c' root = buildOf c root)
    (hproject : ∀ build, m'.project ⟨root, build⟩ = m.project ⟨root, build⟩)
    (hplace : ∀ name, m'.place ⟨root, name⟩ = m.place ⟨root, name⟩) :
    Remembers c' m' root name path k := by
  obtain ⟨build, p, hb, hp, hlocates⟩ := hk.located
  exact ⟨(hplace name).trans hk.place_eq, build, p, hbuild.trans hb, (hproject build).trans hp,
    hlocates⟩

theorem Placed.congr (h : Placed c m root) (hbuild : buildOf c' root = buildOf c root)
    (hproject : ∀ build, m'.project ⟨root, build⟩ = m.project ⟨root, build⟩)
    (hplace : ∀ name, m'.place ⟨root, name⟩ = m.place ⟨root, name⟩) : Placed c' m' root where
  inPlace build p hp := h.inPlace build p ((hproject build).symm.trans hp)
  remembers name path hp := by
    obtain ⟨k, hk⟩ := h.remembers name path ((hplace name).symm.trans hp)
    exact ⟨k, hk.congr hbuild hproject hplace⟩

/-- Whether a step drops what is kept for a root. -/
def Step.drops (directory root : Path) : Step → Bool
  | .invalidate r => Path.resolve directory r = root
  | _ => false

/-- What may happen to a root: what is kept for it is dropped, or it is asked about, or what is kept
for it is left alone. -/
inductive Effect (root : Path) (drops : Bool) (s t : Session) : Prop
  | dropped (hdrops : drops = true) (hmemory : t.memory = s.memory.drop root)
  | asked (hwithin : ∀ R, FullyClosed root R → R s t)
  | apart (hproject : ∀ build, t.memory.project ⟨root, build⟩ = s.memory.project ⟨root, build⟩)
      (hplace : ∀ name, t.memory.place ⟨root, name⟩ = s.memory.place ⟨root, name⟩)

theorem Effect.of_other {t : Session} {drops : Bool}
    (h : AgreeOn (· ≠ Path.resolve s.directory r) s t) (hr : Path.resolve s.directory r ≠ root) :
    Effect root drops s t :=
  .apart (fun build => (h.memory.project_eq ⟨root, build⟩ hr.symm).symm)
    fun name => (h.memory.place_eq ⟨root, name⟩ hr.symm).symm

/-- Every step drops what is kept for a root, asks about it, or leaves it alone. -/
theorem Step.effect (root : Path) (e : Step) (s : Session) :
    Effect root (e.drops s.directory root) s (e.apply s) := by
  cases e with
  | ask r q =>
    by_cases hr : Path.resolve s.directory r = root
    · exact .asked fun R hR => hR.ask q hr
    · exact .of_other (agreeOn_apply rfl s) hr
  | openProject r =>
    by_cases hr : Path.resolve s.directory r = root
    · exact .asked fun R hR => hR.openProject hr
    · exact .of_other (agreeOn_apply rfl s) hr
  | invalidate r =>
    by_cases hr : Path.resolve s.directory r = root
    · exact .dropped (decide_eq_true hr) (apply_invalidate hr).2
    · exact .of_other (agreeOn_apply rfl s) hr
  | clearResults => exact .apart (fun _ => rfl) fun _ => rfl
  | advance seconds => exact .apart (fun _ => rfl) fun _ => rfl
  | write path bytes => exact .apart (fun _ => rfl) fun _ => rfl
  | delete path => exact .apart (fun _ => rfl) fun _ => rfl

/-- What a step that does not change the build file of a root does to its places. -/
structure KeepsPlaces (root : Path) (s t : Session) : Prop where
  placed : Placed t.context t.memory root
  remembers : ∀ {name path k}, Remembers s.context s.memory root name path k →
    Remembers t.context t.memory root name path k

theorem Gains.keepsPlaces {t : Session} (hc : t.context = s.context)
    (h : Gains root s.context s.memory t.memory) : KeepsPlaces root s t :=
  ⟨by rw [hc]; exact h.placed, fun hk => by rw [hc]; exact h.remembers hk⟩

theorem keepsPlaces_of_eq {t : Session} (h : Placed s.context s.memory root)
    (hbuild : buildOf t.context root = buildOf s.context root)
    (hproject : ∀ build, t.memory.project ⟨root, build⟩ = s.memory.project ⟨root, build⟩)
    (hplace : ∀ name, t.memory.place ⟨root, name⟩ = s.memory.place ⟨root, name⟩) :
    KeepsPlaces root s t :=
  ⟨h.congr hbuild hproject hplace, fun hk => hk.congr hbuild hproject hplace⟩

/-- A step that neither drops a root nor changes its build file keeps its places. -/
theorem Placed.keepsPlaces_apply (h : Placed s.context s.memory root)
    (hbuild : buildOf (e.apply s).context root = buildOf s.context root)
    (he : e.drops s.directory root = false) : KeepsPlaces root s (e.apply s) := by
  cases e.effect root s with
  | dropped hdrops hmemory =>
    rw [he] at hdrops
    cases hdrops
  | asked hwithin =>
    obtain ⟨hc, hgain⟩ := hwithin _ (fullyClosed_gains root)
    exact (hgain h).keepsPlaces hc
  | apart hproject hplace => exact keepsPlaces_of_eq h hbuild hproject hplace

theorem placed_of_forgotten (hproject : ∀ build, m.project ⟨root, build⟩ = none)
    (hplace : ∀ name, m.place ⟨root, name⟩ = none) : Placed c m root where
  inPlace build p hp := by
    rw [hproject] at hp
    cases hp
  remembers name path hp := by
    rw [hplace] at hp
    cases hp

theorem Placed.apply (h : Placed s.context s.memory root)
    (hbuild : buildOf (e.apply s).context root = buildOf s.context root) :
    Placed (e.apply s).context (e.apply s).memory root := by
  cases he : e.drops s.directory root with
  | false => exact (h.keepsPlaces_apply hbuild he).placed
  | true =>
    cases e with
    | invalidate r =>
      have hr : Path.resolve s.directory r = root := of_decide_eq_true he
      rw [(apply_invalidate hr).2]
      exact placed_of_forgotten (fun _ => if_pos rfl) (fun _ => if_pos rfl)
    | _ => cases he

/-- No step of a run changes the build file that is found for a root. -/
def KeepsBuild (root : Path) : Session → List Step → Prop
  | _, [] => True
  | s, e :: steps =>
    buildOf (e.apply s).context root = buildOf s.context root ∧ KeepsBuild root (e.apply s) steps

instance decidableKeepsBuild (root : Path) :
    (s : Session) → (steps : List Step) → Decidable (KeepsBuild root s steps)
  | _, [] => .isTrue trivial
  | s, e :: steps =>
    have := decidableKeepsBuild root (e.apply s) steps
    inferInstanceAs (Decidable (_ ∧ _))

theorem Placed.after {steps : List Step} (h : Placed s.context s.memory root)
    (hbuild : KeepsBuild root s steps) :
    Placed (s.after steps).context (s.after steps).memory root := by
  induction steps generalizing s with
  | nil => exact h
  | cons e steps ih => exact ih (h.apply hbuild.1) hbuild.2

theorem Placed.keepsPlaces_after {steps : List Step} (h : Placed s.context s.memory root)
    (hbuild : KeepsBuild root s steps)
    (hdrops : ∀ e ∈ steps, e.drops s.directory root = false) :
    KeepsPlaces root s (s.after steps) := by
  induction steps generalizing s with
  | nil => exact ⟨h, id⟩
  | cons e steps ih =>
    have hstep := h.keepsPlaces_apply hbuild.1 (hdrops e List.mem_cons_self)
    have hdirectory := directory_apply e s
    have hrest := ih hstep.placed hbuild.2 fun e' he' => by
      rw [hdirectory]
      exact hdrops e' (List.mem_cons_of_mem _ he')
    exact ⟨hrest.placed, fun hk => hrest.remembers (hstep.remembers hk)⟩

/-! ## Answers -/

theorem projectOf_of_buildOf {build : Option Path} (hbuild : buildOf c root = .ok build)
    (hp : m.project ⟨root, build⟩ = some p) : projectOf c m root = .ok (⟨root, build⟩, p) := by
  obtain ⟨rules, hrules, hfind⟩ := bind_eq_ok_iff.1 hbuild
  exact projectOf_eq_ok_iff.2 ⟨rules, build, hrules, hfind, rfl, .inl hp⟩

/-- A remembered class is a hit. -/
theorem Remembers.perform_findClass (h : Remembers s.context s.memory root name path k)
    (hr : Path.resolve s.directory r = root) :
    ∃ t, perform (findClass r name) s = (.ok (some k), t) ∧
      t.classHits = s.classHits + 1 ∧ t.classScans = s.classScans := by
  obtain ⟨build, p, hbuild, hp, -⟩ := h.located
  have hproject := projectOf_of_buildOf hbuild hp
  obtain ⟨t, ht, hturn⟩ := Session.perform_findClass name hr hproject
  rw [h.place_eq, lookUp_of_locates (h.locates hproject)] at ht hturn
  exact ⟨t, ht, hturn.hits_eq, hturn.scans_eq⟩

/-- Looking a class up gives the first of its declarations. -/
theorem Placed.findClass_eq (h : Placed s.context s.memory root)
    (hr : Path.resolve s.directory r = root) (name : String) :
    (perform (findClass r name) s).1 = (perform (findDeclarations r name) s).1.map List.head? := by
  cases hp : projectOf s.context s.memory root with
  | error f =>
    rw [perform_findClass_error hr hp, perform_findDeclarations_error hr hp]
    rfl
  | ok kp =>
    obtain ⟨t, ht, -⟩ := Session.perform_findClass name hr hp
    obtain ⟨u, hu, -⟩ := perform_findDeclarations name hr hp
    rw [ht, hu]
    exact congrArg Except.ok (h.answer_lookUp hp name)

/-- Looking a class up does not change what its declarations are. -/
theorem findDeclarations_findClass (hr : Path.resolve s.directory r = root) (name : String) :
    (perform (findDeclarations r name) (perform (findClass r name) s).2).1 =
      (perform (findDeclarations r name) s).1 := by
  cases hp : projectOf s.context s.memory root with
  | error f => rw [perform_findClass_error hr hp]
  | ok kp =>
    obtain ⟨t, ht, hturn⟩ := Session.perform_findClass name hr hp
    have hcontext := hturn.context_eq
    have hdisk : t.disk = s.disk := congrArg Context.disk hcontext
    have hlanguages : t.languages = s.languages := congrArg Context.languages hcontext
    have hdirectory : t.directory = s.directory := congrArg Context.directory hcontext
    have hp' := projectOf_of_kept hp
      (show t.memory.project kp.1 = some _ by rw [hturn.memory_eq]; exact Memory.project_keep)
    rw [← hcontext] at hp'
    obtain ⟨u, hu, -⟩ := perform_findDeclarations name hr hp
    obtain ⟨v, hv, -⟩ := perform_findDeclarations name (hdirectory ▸ hr) hp'
    rw [ht, hu, hv, hdisk, hlanguages, (extends_lookUp ..).declarations_eq]

theorem place_of_answer {d : Disk} {ls : Languages} {place : Option Path}
    (h : (lookUp d ls name p place).answer = some k) :
    ∃ path, (lookUp d ls name p place).place = some path := by
  unfold lookUp at h ⊢
  split
  · rename_i hbind
    obtain ⟨path, hpath, -⟩ := Option.bind_eq_some_iff.1 hbind
    exact ⟨path, hpath⟩
  · rename_i hbind
    simp only [hbind] at h
    exact ⟨k.unit.path, by simp only [h, Option.map_some]⟩

/-- A class that was found is remembered. -/
theorem Placed.remembers_findClass (h : Placed s.context s.memory root)
    (hr : Path.resolve s.directory r = root)
    (hk : (perform (findClass r name) s).1 = .ok (some k)) :
    ∃ path, Remembers (perform (findClass r name) s).2.context
      (perform (findClass r name) s).2.memory root name path k := by
  cases hp : projectOf s.context s.memory root with
  | error f =>
    rw [perform_findClass_error hr hp] at hk
    cases hk
  | ok kp =>
    obtain ⟨t, ht, hturn⟩ := Session.perform_findClass name hr hp
    rw [ht] at hk ⊢
    have hanswer := Except.ok.inj hk
    obtain ⟨path, hpath⟩ := place_of_answer hanswer
    have hgain : Gains root s.context s.memory t.memory := hturn.memory_eq ▸ h.gains_lookUp hp
    have hplace : t.memory.place ⟨root, name⟩ = some path := by
      rw [hturn.memory_eq, Memory.place_setPlace]
      exact hpath
    obtain ⟨k', hk'⟩ := hgain.placed.remembers name path hplace
    -- The class that is located is the one that was found: both are the first declaration.
    have hp' := projectOf_of_kept hp
      (show t.memory.project kp.1 = some _ by rw [hturn.memory_eq]; exact Memory.project_keep)
    have hhead := (hk'.locates hp').head_declarations s.disk s.languages
    rw [(extends_lookUp ..).declarations_eq] at hhead
    have hfirst := h.answer_lookUp hp name
    have heq : k' = k := Option.some.inj (hhead.symm.trans (hfirst.symm.trans hanswer))
    refine ⟨path, ?_⟩
    rw [hturn.context_eq, ← heq]
    exact hk'

variable {config : Config} {directory : Path} {disk : Disk} {now : Binary64}

/-- While the same build file is found for a root, looking a class up gives the first of its
declarations, asked in the same state or right after; and a class that was found once is found again
without a scan until the root is dropped, whatever happens to the files. -/
theorem findClass_first_and_hit (hstart : start config directory disk now = .ok s)
    (root : Path) (name : String) {steps : List Step}
    (hbuild : KeepsBuild (Path.resolve directory root) s steps) :
    let t := s.after steps
    (perform (findClass root name) t).1 =
        (perform (findDeclarations root name) t).1.map List.head? ∧
      (perform (findClass root name) t).1 =
        (perform (findDeclarations root name) (perform (findClass root name) t).2).1.map
          List.head? ∧
      ∀ k later, (perform (findClass root name) t).1 = .ok (some k) →
        (∀ e ∈ later, e.drops directory (Path.resolve directory root) = false) →
        KeepsBuild (Path.resolve directory root) t (.ask root (.classOf name) :: later) →
        ∃ v, perform (findClass root name) (t.after (.ask root (.classOf name) :: later)) =
            (.ok (some k), v) ∧
          v.classHits = (t.after (.ask root (.classOf name) :: later)).classHits + 1 ∧
          v.classScans = (t.after (.ask root (.classOf name) :: later)).classScans := by
  intro t
  have hdirectory : t.directory = directory :=
    (directory_after steps s).trans (views_of_start hstart).1
  have hr : Path.resolve t.directory root = Path.resolve directory root := by rw [hdirectory]
  have hempty : Placed s.context s.memory (Path.resolve directory root) := by
    rw [(views_of_start hstart).2.2]
    exact placed_of_forgotten (fun _ => rfl) (fun _ => rfl)
  have hplaced := hempty.after hbuild
  refine ⟨hplaced.findClass_eq hr name, ?_, fun k later hk hdrops hkeeps => ?_⟩
  · rw [findDeclarations_findClass hr name]
    exact hplaced.findClass_eq hr name
  · have happly : (Step.ask root (.classOf name)).apply t = (perform (findClass root name) t).2 :=
      congrArg Prod.snd (perform_classOf root name t)
    obtain ⟨path, hremembers⟩ := hplaced.remembers_findClass hr hk
    rw [← happly] at hremembers
    have hdirectory' : ((Step.ask root (.classOf name)).apply t).directory = directory :=
      (directory_apply _ t).trans hdirectory
    have hlater := (hplaced.apply hkeeps.1).keepsPlaces_after hkeeps.2
      (by rw [hdirectory']; exact hdrops)
    rw [after_cons]
    exact (hlater.remembers hremembers).perform_findClass
      (by rw [directory_after, hdirectory'])

end Session

end

namespace Session

/-- The file that declares a class is deleted, and a file that comes before it declares the class
again: the class is found where it was. -/
theorem findClass_first_and_hit_deleted :
    let root : Path := ⟨"/", ["app"]⟩
    let source : List UInt8 := "class A: 0".toUTF8.toList
    let later : List Step :=
      [.delete ⟨"/", ["app", "m.py"]⟩, .write ⟨"/", ["app", "b.py"]⟩ source]
    ∃ s k, start .default ⟨"/", []⟩
        ⟨[(["app", "pyproject.toml"], []), (["app", "m.py"], source)], []⟩ (.zero false) = .ok s ∧
      KeepsBuild root s [.ask root (.classOf "B")] ∧
      (perform (findClass root "A") (s.after [.ask root (.classOf "B")])).1 = .ok (some k) ∧
      ∃ v, perform (findClass root "A") ((s.after [.ask root (.classOf "B")]).after
          (.ask root (.classOf "A") :: later)) = (.ok (some k), v) ∧
        v.classHits = ((s.after [.ask root (.classOf "B")]).after
          (.ask root (.classOf "A") :: later)).classHits + 1 ∧
        v.classScans = ((s.after [.ask root (.classOf "B")]).after
          (.ask root (.classOf "A") :: later)).classScans := by
  intro root source later
  obtain ⟨s, hs, hcheck⟩ := exists_start_of_any .default ⟨"/", []⟩
    ⟨[(["app", "pyproject.toml"], []), (["app", "m.py"], source)], []⟩ (.zero false)
    (fun s =>
      KeepsBuild root s [.ask root (.classOf "B")] ∧
      KeepsBuild root (s.after [.ask root (.classOf "B")]) (.ask root (.classOf "A") :: later) ∧
      (perform (findClass root "A") (s.after [.ask root (.classOf "B")])).1.toOption.join.isSome)
    (by decide +kernel)
  obtain ⟨hbuild, hlater, hfound⟩ := of_decide_eq_true hcheck
  obtain ⟨k, hk⟩ := Option.isSome_iff_exists.1 hfound
  have hanswer : (perform (findClass root "A") (s.after [.ask root (.classOf "B")])).1 =
      .ok (some k) := by
    cases h : (perform (findClass root "A") (s.after [.ask root (.classOf "B")])).1 with
    | error f =>
      rw [h] at hk
      cases hk
    | ok x =>
      rw [h] at hk
      exact congrArg Except.ok hk
  have h := findClass_first_and_hit hs root "A" hbuild
  exact ⟨s, k, hs, hbuild, hanswer, h.2.2 k later hanswer (by decide) hlater⟩

end Session

end RouteLens
