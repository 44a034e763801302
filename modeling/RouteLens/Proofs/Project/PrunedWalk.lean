import Mathlib.Data.List.Lex
import Mathlib.Data.List.Nodup
import RouteLens.Project.Discovery

/-!
# Discovery as a filter

Discovery goes down folder by folder and passes by what is excluded, a folder with all that is below
it.  It comes to a plain filter over the files of a disk:

* one step of a walk (`mem_walk_cons`) looks at the first name below the folder it is in, and by
  induction on the names a walk meets what has an admitted way down (`mem_walk_iff`), once each
  (`nodup_walk`);
* paths are put in order by their names (`Path.Before`), and sorting what is met once gives a list
  that strictly increases (`before_discover`);
* without patterns for endings, a folder is excluded by one of its names, so that the path of a file
  tells of all folders on the way to it (`excludes_of_folder`).
-/

namespace RouteLens

/-! ## The order of paths -/

namespace Path

/-- A name comes before another one by the first code point that differs, or as its beginning. -/
def NameBefore (a b : String) : Prop :=
  List.Lex (fun c d : Char => c.toNat < d.toNat) a.toList b.toList

/-- A path comes before another one by the first name that differs, or as its beginning. -/
def Before (p q : Path) : Prop :=
  List.Lex NameBefore p.parts q.parts

section Order

/-- Characters by code point. -/
private abbrev codeLt (c d : Char) : Prop :=
  c.toNat < d.toNat

private instance : Std.Asymm codeLt :=
  ⟨fun c d h h' => by simp only [codeLt] at h h'; omega⟩

private instance : IsOrderConnected Char codeLt :=
  ⟨fun a b c h => by simp only [codeLt] at h ⊢; omega⟩

private instance : Std.Trichotomous codeLt :=
  ⟨fun c d h h' => by
    simp only [codeLt] at h h'
    exact Char.toNat_inj.1 (by omega)⟩

private instance : Std.Asymm NameBefore :=
  ⟨fun _ _ h h' => asymm_of (List.Lex codeLt) h h'⟩

private instance : IsOrderConnected String NameBefore :=
  ⟨fun a b c h =>
    (inferInstance : IsOrderConnected _ (List.Lex codeLt)).conn a.toList b.toList c.toList h⟩

private instance : Std.Trichotomous NameBefore :=
  ⟨fun _ _ h h' => String.toList_inj.1
    (Std.Trichotomous.trichotomous (r := List.Lex codeLt) _ _ h h')⟩

theorem nameLt_iff {a b : String} : nameLt a b = true ↔ NameBefore a b := by
  rw [nameLt, List.lex_eq_true_iff_lex, NameBefore]
  simp only [decide_eq_true_eq]

theorem le_iff {p q : Path} : p.le q = true ↔ ¬ q.Before p := by
  rw [le, Bool.not_eq_true', Bool.eq_false_iff, Ne, List.lex_eq_true_iff_lex, Before]
  simp only [nameLt_iff]

theorem Before.asymm {p q : Path} (h : p.Before q) : ¬ q.Before p :=
  asymm_of (List.Lex NameBefore) h

theorem le_trans (p q r : Path) (h : p.le q = true) (h' : q.le r = true) : p.le r = true := by
  rw [le_iff] at h h' ⊢
  exact IsOrderConnected.neg_trans (r := List.Lex NameBefore) h' h

theorem le_total (p q : Path) : (p.le q || q.le p) = true := by
  rw [Bool.or_eq_true, le_iff, le_iff]
  by_cases h : q.Before p
  · exact .inr h.asymm
  · exact .inl h

theorem parts_eq_of_le {p q : Path} (h : p.le q = true) (h' : q.le p = true) :
    p.parts = q.parts := by
  rw [le_iff] at h h'
  exact Std.Trichotomous.trichotomous (r := List.Lex NameBefore) _ _ h' h

end Order

end Path

/-! ## What a walk meets -/

/-- Removing repetitions leaves no member twice. -/
theorem nodup_eraseDups {α : Type} [BEq α] [LawfulBEq α] (l : List α) : l.eraseDups.Nodup := by
  match l with
  | [] => exact List.nodup_nil
  | a :: l =>
    rw [List.eraseDups_cons, List.nodup_cons]
    refine ⟨fun h => ?_, nodup_eraseDups _⟩
    have hfilter := List.mem_filter.1 (List.mem_eraseDups.1 h)
    simp at hfilter
termination_by l.length
decreasing_by
  have := List.length_filter_le (fun b => !b == a) l
  rw [List.length_cons]
  omega

namespace Disk

variable {d : Disk} {ls : Languages} {exclude place names rest before : List String}
  {name : String} {folder x : Path}

/-- Names lead from a folder to a file. -/
def HasFile (d : Disk) (place names : List String) : Prop :=
  names ≠ [] ∧ ∃ bytes, (place ++ names, bytes) ∈ d.files

/-- Nothing on the way down along some names is excluded, from the first folder to the file itself.
The names before them lead to where the way starts. -/
def Admits (exclude start names : List String) : Prop :=
  ∀ before, before <+: names → before ≠ [] → excludes exclude ⟨"", start ++ before⟩ = false

theorem walk_eq (d : Disk) (ls : Languages) (exclude place names : List String) :
    d.walk ls exclude place names =
      (((d.sourceNames ls place).filter fun name => !excludes exclude ⟨"", names ++ [name]⟩).map
        fun name => names ++ [name]) ++
      ((d.folderNames place).filter fun name => !excludes exclude ⟨"", names ++ [name]⟩).flatMap
        fun name => d.walk ls exclude (place ++ [name]) (names ++ [name]) := by
  rw [walk]
  simp only [List.flatMap_subtype, List.unattach_attach]

/-- A walk goes on from the names that it starts with. -/
theorem exists_of_mem_walk (place names : List String) {found : List String}
    (h : found ∈ d.walk ls exclude place names) : ∃ name rest, found = names ++ name :: rest := by
  rw [walk_eq, List.mem_append, List.mem_map, List.mem_flatMap] at h
  rcases h with ⟨name, -, rfl⟩ | ⟨name, hname, h⟩
  · exact ⟨name, [], rfl⟩
  · have hdeep := length_lt_extent (List.mem_filter.1 hname).1
    obtain ⟨second, rest, rfl⟩ := exists_of_mem_walk (place ++ [name]) (names ++ [name]) h
    exact ⟨name, second :: rest, by simp⟩
termination_by d.extent - place.length
decreasing_by
  rw [List.length_append, List.length_singleton]
  omega

/-- One step of a walk: what it meets below a name is a source file there, or what a walk meets in
the folder there, and the name is not excluded. -/
theorem mem_walk_cons : names ++ name :: rest ∈ d.walk ls exclude place names ↔
    excludes exclude ⟨"", names ++ [name]⟩ = false ∧
      (rest = [] ∧ name ∈ d.sourceNames ls place ∨ name ∈ d.folderNames place ∧
        (names ++ [name]) ++ rest ∈ d.walk ls exclude (place ++ [name]) (names ++ [name])) := by
  rw [walk_eq, List.mem_append, List.mem_map, List.mem_flatMap]
  simp only [List.mem_filter, Bool.not_eq_true']
  constructor
  · rintro (⟨n, ⟨hmem, hkept⟩, heq⟩ | ⟨n, ⟨hmem, hkept⟩, h⟩)
    · obtain ⟨rfl, rfl⟩ : n = name ∧ rest = [] := by simpa [eq_comm] using heq
      exact ⟨hkept, .inl ⟨rfl, hmem⟩⟩
    · obtain ⟨second, tail, heq⟩ := exists_of_mem_walk _ _ h
      obtain ⟨rfl, -⟩ : n = name ∧ rest = second :: tail := by simpa [eq_comm] using heq
      exact ⟨hkept, .inr ⟨hmem, by simpa using h⟩⟩
  · rintro ⟨hkept, ⟨rfl, hmem⟩ | ⟨hmem, h⟩⟩
    · exact .inl ⟨name, ⟨hmem, hkept⟩, rfl⟩
    · exact .inr ⟨name, ⟨hmem, hkept⟩, by simpa using h⟩

theorem admits_cons : Admits exclude names (name :: rest) ↔
    excludes exclude ⟨"", names ++ [name]⟩ = false ∧ Admits exclude (names ++ [name]) rest := by
  constructor
  · intro h
    refine ⟨h [name] (by simp) (List.cons_ne_nil _ _), fun before hbefore hne => ?_⟩
    have := h (name :: before) (List.cons_prefix_cons.2 ⟨rfl, hbefore⟩) (List.cons_ne_nil _ _)
    simpa using this
  · rintro ⟨hname, hrest⟩ before hbefore hne
    obtain ⟨first, before, rfl⟩ := List.exists_cons_of_ne_nil hne
    obtain ⟨rfl, htail⟩ := List.cons_prefix_cons.1 hbefore
    by_cases hnil : before = []
    · rw [hnil]
      exact hname
    · simpa using hrest before htail hnil

theorem admits_nil : Admits exclude names [] :=
  fun _ hbefore hne => absurd (List.prefix_nil.1 hbefore) hne

theorem hasFile_cons (hne : rest ≠ []) :
    d.HasFile place (name :: rest) ↔ d.HasFile (place ++ [name]) rest := by
  simp [HasFile, hne]

/-- The extension of a path is that of its last name. -/
theorem extension_append (anchor : String) (names : List String) (hne : rest ≠ []) :
    Path.extension ⟨anchor, names ++ rest⟩ = Path.extension ⟨"", rest⟩ := by
  have hlast : (names ++ rest).getLastD "" = rest.getLastD "" := by
    rw [List.getLastD_eq_getLast?, List.getLastD_eq_getLast?, List.getLast?_append_of_ne_nil _ hne]
  rw [Path.extension, Path.extension, Path.fileName, Path.fileName, hlast]

theorem mem_sourceNames_iff : name ∈ d.sourceNames ls place ↔
    d.HasFile place [name] ∧ ls.hasKey (Path.extension ⟨"", [name]⟩) = true := by
  rw [sourceNames, List.mem_filter, mem_fileNames_iff]
  simp [HasFile]

/-- A file below a folder makes the folder exist. -/
theorem HasFile.mem_folderNames (h : d.HasFile (place ++ [name]) rest) :
    name ∈ d.folderNames place := by
  obtain ⟨hne, bytes, hmem⟩ := h
  exact mem_folderNames_iff.2 (.inl ⟨rest, bytes, hne, by simpa using hmem⟩)

/-- A walk meets the source files that an admitted way leads to. -/
theorem mem_walk_iff : names ++ rest ∈ d.walk ls exclude place names ↔
    d.HasFile place rest ∧ ls.hasKey (Path.extension ⟨"", rest⟩) = true ∧
      Admits exclude names rest := by
  induction rest generalizing place names with
  | nil =>
    refine iff_of_false (fun h => ?_) fun h => h.1.1 rfl
    obtain ⟨name, rest, heq⟩ := exists_of_mem_walk _ _ h
    simp at heq
  | cons name rest ih =>
    rw [mem_walk_cons, admits_cons, ih, mem_sourceNames_iff]
    constructor
    · rintro ⟨hname, ⟨rfl, hfile, hkey⟩ | ⟨-, hfile, hkey, hrest⟩⟩
      · exact ⟨hfile, hkey, hname, admits_nil⟩
      · rw [← extension_append "" [name] hfile.1] at hkey
        exact ⟨(hasFile_cons hfile.1).2 hfile, hkey, hname, hrest⟩
    · rintro ⟨hfile, hkey, hname, hrest⟩
      refine ⟨hname, ?_⟩
      by_cases hnil : rest = []
      · subst hnil
        exact .inl ⟨rfl, hfile, hkey⟩
      · have hinner := (hasFile_cons hnil).1 hfile
        rw [show name :: rest = [name] ++ rest from rfl, extension_append "" [name] hnil] at hkey
        exact .inr ⟨hinner.mem_folderNames, hinner, hkey, hrest⟩

/-- A walk meets nothing twice. -/
theorem nodup_walk (d : Disk) (ls : Languages) (exclude place names : List String) :
    (d.walk ls exclude place names).Nodup := by
  have hinjective : Function.Injective fun name : String => names ++ [name] := fun a b h => by
    simpa using h
  rw [walk_eq, List.nodup_append, List.nodup_flatMap]
  refine ⟨((nodup_eraseDups _).filter _ |>.filter _).map hinjective, ⟨?_, ?_⟩, ?_⟩
  · intro name hname
    have hdeep := length_lt_extent (List.mem_filter.1 hname).1
    exact nodup_walk d ls exclude (place ++ [name]) (names ++ [name])
  · refine ((nodup_eraseDups _).filter _).imp fun {a b} hne found ha hb => ?_
    obtain ⟨second, rest, rfl⟩ := exists_of_mem_walk _ _ ha
    obtain ⟨second', rest', heq⟩ := exists_of_mem_walk _ _ hb
    simp [hne] at heq
  · -- a file directly in the folder is one name long, and what is met below a folder is longer
    rintro _ hfile found hfound rfl
    obtain ⟨name, -, rfl⟩ := List.mem_map.1 hfile
    obtain ⟨folder, -, h⟩ := List.mem_flatMap.1 hfound
    obtain ⟨second, rest, heq⟩ := exists_of_mem_walk _ _ h
    simp at heq
termination_by d.extent - place.length
decreasing_by
  rw [List.length_append, List.length_singleton]
  omega

/-! ## Listed files -/

theorem HasFile.hasFolder (h : d.HasFile place names) : d.hasFolder place = true := by
  obtain ⟨hne, bytes, hmem⟩ := h
  rw [Disk.hasFolder, Bool.or_eq_true, List.any_eq_true]
  exact .inr ⟨_, hmem, by simp [hne]⟩

/-- The walk lists the sources below the folder on whose way nothing is excluded. -/
theorem mem_sourcesBelow : x ∈ d.sourcesBelow ls folder exclude ↔
    ∃ place names, d.locate? folder = some place ∧ d.HasFile place names ∧
      x = ⟨folder.anchor, folder.parts ++ names⟩ ∧
      ls.hasKey x.extension = true ∧ Admits exclude [] names := by
  unfold sourcesBelow
  cases hplace : d.locate? folder with
  | none => simp
  | some place =>
    simp only
    constructor
    · intro h
      split at h
      · obtain ⟨names, hmem, rfl⟩ := List.mem_map.1 h
        obtain ⟨hfile, hkey, hadmits⟩ := mem_walk_iff.1 hmem
        exact ⟨place, names, rfl, hfile, rfl, by rwa [extension_append _ _ hfile.1], hadmits⟩
      · cases h
    · rintro ⟨place', names, heq, hfile, rfl, hkey, hadmits⟩
      cases heq
      rw [extension_append _ _ hfile.1] at hkey
      rw [if_pos hfile.hasFolder]
      exact List.mem_map_of_mem (mem_walk_iff.2 ⟨hfile, hkey, hadmits⟩)

theorem mem_discover : x ∈ d.discover ls folder exclude ↔
    ∃ place names, d.locate? folder = some place ∧ d.HasFile place names ∧
      x = ⟨folder.anchor, folder.parts ++ names⟩ ∧
      ls.hasKey x.extension = true ∧ Admits exclude [] names := by
  rw [discover, List.mem_mergeSort, mem_sourcesBelow]

theorem nodup_discover (d : Disk) (ls : Languages) (folder : Path) (exclude : List String) :
    (d.discover ls folder exclude).Nodup := by
  rw [discover, (List.mergeSort_perm _ _).nodup_iff, sourcesBelow]
  split
  · exact List.nodup_nil
  · split
    · exact (nodup_walk d ls exclude _ []).map fun a b h => by simpa using h
    · exact List.nodup_nil

theorem pairwise_discover (d : Disk) (ls : Languages) (folder : Path) (exclude : List String) :
    (d.discover ls folder exclude).Pairwise fun x y => x.le y = true :=
  List.pairwise_mergeSort Path.le_trans Path.le_total _

/-- The files are listed in strictly increasing order. -/
theorem before_discover (d : Disk) (ls : Languages) (folder : Path) (exclude : List String) :
    (d.discover ls folder exclude).Pairwise Path.Before := by
  refine ((pairwise_discover d ls folder exclude).and
    (nodup_discover d ls folder exclude)).imp_of_mem fun {x y} hx hy hxy => ?_
  obtain ⟨-, names, -, -, rfl, -⟩ := mem_discover.1 hx
  obtain ⟨-, names', -, -, rfl, -⟩ := mem_discover.1 hy
  by_contra hnot
  have hparts := Path.parts_eq_of_le hxy.1 (Path.le_iff.2 hnot)
  exact hxy.2 (by simpa using hparts)

end Disk

/-! ## Patterns that are names -/

namespace Text

theorem splitList_ne_nil (sep : Char) (cs : List Char) : splitList sep cs ≠ [] := by
  cases cs with
  | nil => exact List.cons_ne_nil _ _
  | cons c cs =>
    unfold splitList
    split
    · exact List.cons_ne_nil _ _
    · split <;> exact List.cons_ne_nil _ _

theorem splitList_append (sep : Char) (cs ds : List Char) :
    splitList sep (cs ++ sep :: ds) = splitList sep cs ++ splitList sep ds := by
  induction cs with
  | nil => simp [splitList]
  | cons c cs ih =>
    rw [List.cons_append, splitList, splitList, ih]
    split
    · rfl
    · obtain ⟨part, parts, hparts⟩ := List.exists_cons_of_ne_nil (splitList_ne_nil sep cs)
      rw [hparts]
      rfl

theorem joinWith_append (sep : String) {names rest : List String} (hnames : names ≠ [])
    (hrest : rest ≠ []) :
    joinWith sep (names ++ rest) = joinWith sep names ++ sep ++ joinWith sep rest := by
  induction names with
  | nil => exact absurd rfl hnames
  | cons name names ih =>
    cases names with
    | nil =>
      obtain ⟨first, rest, rfl⟩ := List.exists_cons_of_ne_nil hrest
      rfl
    | cons second names =>
      calc joinWith sep (name :: second :: names ++ rest)
          = name ++ sep ++ joinWith sep (second :: names ++ rest) := rfl
        _ = name ++ sep ++ joinWith sep (second :: names) ++ sep ++ joinWith sep rest := by
            rw [ih (List.cons_ne_nil _ _)]
            simp only [String.append_assoc]

/-- The names of a joined text are those of its parts. -/
theorem split_joinWith_append {names rest : List String} (hnames : names ≠ []) (hrest : rest ≠ []) :
    split '/' (joinWith "/" (names ++ rest)) =
      split '/' (joinWith "/" names) ++ split '/' (joinWith "/" rest) := by
  rw [split, joinWith_append "/" hnames hrest, String.toList_append, String.toList_append,
    List.append_assoc, show "/".toList = ['/'] from rfl, List.singleton_append, splitList_append,
    List.map_append]
  rfl

end Text

theorem excludes_of_names {patterns : List String}
    (h : ∀ pattern ∈ patterns, pattern.toList.head? ≠ some '*') {names : List String}
    (hne : names ≠ []) : excludes patterns ⟨"", names⟩ = true ↔
      ∃ pattern ∈ patterns, pattern ∈ Text.split '/' (Text.joinWith "/" names) := by
  have htext : Path.toText ⟨"", names⟩ = Text.joinWith "/" names := by
    simp [Path.toText, hne]
  rw [excludes, htext, List.any_eq_true]
  refine exists_congr fun pattern => and_congr_right fun hmem => ?_
  split
  · rename_i ending hstar
    exact absurd (by rw [hstar]; rfl) (h pattern hmem)
  · exact List.contains_iff_mem

/-- A pattern that is a name and excludes a folder excludes all that is below it by the path of the
latter. -/
theorem excludes_of_folder {patterns : List String}
    (h : ∀ pattern ∈ patterns, pattern.toList.head? ≠ some '*') {before names : List String}
    (hbefore : before <+: names) (hne : before ≠ [])
    (hexcludes : excludes patterns ⟨"", before⟩ = true) : excludes patterns ⟨"", names⟩ = true := by
  obtain ⟨rest, rfl⟩ := hbefore
  by_cases hrest : rest = []
  · rwa [hrest, List.append_nil]
  · obtain ⟨pattern, hmem, hname⟩ := (excludes_of_names h hne).1 hexcludes
    refine (excludes_of_names h (by simp [hne])).2 ⟨pattern, hmem, ?_⟩
    rw [Text.split_joinWith_append hne hrest]
    exact List.mem_append_left _ hname

namespace Disk

variable {exclude names : List String}

theorem admits_iff_of_names (h : ∀ pattern ∈ exclude, pattern.toList.head? ≠ some '*')
    (hne : names ≠ []) : Admits exclude [] names ↔ excludes exclude ⟨"", names⟩ = false := by
  constructor
  · intro hadmits
    exact hadmits names (List.prefix_refl _) hne
  · intro hnames before hbefore hbeforene
    rw [List.nil_append, ← Bool.not_eq_true]
    intro hexcludes
    rw [excludes_of_folder h hbefore hbeforene hexcludes] at hnames
    cases hnames

/-- Discovery below a folder lists, in strictly increasing order of paths and each of them once, the
files below the folder that have the extension of a language, unless a pattern excludes the file or
a folder on the way to it.  If every pattern is a name, it is enough to look at the path of the
file. -/
theorem discover_eq_filter (d : Disk) (ls : Languages) (folder : Path) (exclude : List String) :
    (d.discover ls folder exclude).Pairwise Path.Before ∧
    (d.discover ls folder exclude).Nodup ∧
    (∀ x, x ∈ d.discover ls folder exclude ↔
      ∃ place names, d.locate? folder = some place ∧ d.HasFile place names ∧
        x = ⟨folder.anchor, folder.parts ++ names⟩ ∧ ls.hasKey x.extension = true ∧
        ∀ before, before <+: names → before ≠ [] → excludes exclude ⟨"", before⟩ = false) ∧
    ((∀ pattern ∈ exclude, pattern.toList.head? ≠ some '*') →
      ∀ x, x ∈ d.discover ls folder exclude ↔
        ∃ place names, d.locate? folder = some place ∧ d.HasFile place names ∧
          x = ⟨folder.anchor, folder.parts ++ names⟩ ∧ ls.hasKey x.extension = true ∧
          excludes exclude ⟨"", names⟩ = false) := by
  refine ⟨before_discover d ls folder exclude, nodup_discover d ls folder exclude,
    fun x => mem_discover, fun h x => mem_discover.trans ?_⟩
  refine exists_congr fun place => exists_congr fun names => ?_
  refine and_congr_right fun _ => and_congr_right fun hfile => ?_
  rw [admits_iff_of_names h hfile.1]

/-- A pattern for an ending excludes a folder and not the file below it: the file is not listed, and
the one beside the folder is.  The name of the folder as a pattern excludes the file by its path. -/
theorem discover_eq_filter_ending :
    let d : Disk := ⟨[(["app", "old.d", "b.py"], []), (["app", "a.py"], [])], []⟩
    let folder : Path := ⟨"/", ["app"]⟩
    excludes ["*.d"] ⟨"", ["old.d", "b.py"]⟩ = false ∧
      ⟨"/", ["app", "old.d", "b.py"]⟩ ∉ d.discover .default folder ["*.d"] ∧
      ⟨"/", ["app", "a.py"]⟩ ∈ d.discover .default folder ["*.d"] ∧
      ⟨"/", ["app", "a.py"]⟩ ∈ d.discover .default folder ["old.d"] := by
  intro d folder
  obtain ⟨-, -, hending, -⟩ := discover_eq_filter d .default folder ["*.d"]
  obtain ⟨-, -, -, hname⟩ := discover_eq_filter d .default folder ["old.d"]
  have hfile : d.HasFile ["app"] ["a.py"] := ⟨List.cons_ne_nil _ _, [], by simp [d]⟩
  refine ⟨by decide +kernel, ?_, ?_, ?_⟩
  · rw [hending]
    rintro ⟨place, names, hplace, -, heq, -, hadmits⟩
    obtain rfl : ["old.d", "b.py"] = names := by simpa [folder] using heq
    exact absurd (hadmits ["old.d"] (by simp) (List.cons_ne_nil _ _)) (by decide +kernel)
  · refine (hending _).2 ⟨["app"], ["a.py"], rfl, hfile, rfl, by decide +kernel, ?_⟩
    intro before hbefore hne
    rcases List.prefix_cons_iff.1 hbefore with rfl | ⟨rest, rfl, hrest⟩
    · exact absurd rfl hne
    · rw [List.prefix_nil.1 hrest]
      decide +kernel
  · exact (hname (by decide) _).2
      ⟨["app"], ["a.py"], rfl, hfile, rfl, by decide +kernel, by decide +kernel⟩

end Disk

end RouteLens
