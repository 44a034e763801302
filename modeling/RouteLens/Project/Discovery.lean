import RouteLens.Config.Listing
import RouteLens.Disk
import RouteLens.Ordered

/-!
# Discovery

Which files belong to a project.  The first build file that exists marks a project of all files
below its root; without one, the project consists of the files below its source folder.
-/

namespace RouteLens

/-- The languages by file extension. -/
abbrev Languages := Ordered String

namespace Languages

/-- The language that is always known. -/
def default : Languages :=
  [(".py", "python")]

/-- An extension in lower case, with its dot. -/
def normalize (extension : String) : String :=
  let e := Text.toLower extension
  if Text.startsWith e "." then e else "." ++ e

/-- Makes a language known by its extensions. -/
def register (ls : Languages) (language : String) (extensions : List String) : Languages :=
  extensions.foldl (fun ls e => Ordered.put (normalize e) language ls) ls

/-- The language of a file. -/
def languageOf? (ls : Languages) (p : Path) : Option String :=
  (Ordered.get? ls p.extension).filter fun l => !l.isEmpty

end Languages

/-- How the files of a project are found. -/
structure DiscoveryRules where
  buildFiles : Listing
  sourceFolder : Value
  exclude : Listing

/-- The rules that a configuration sets, with the defaults for absent entries. -/
def DiscoveryRules.ofConfig (c : Config) : Except Fault DiscoveryRules := do
  let es ← c.overlaid "project" Config.projectDefaults
  return {
    buildFiles := (← es.need "build_config_files").listing .wrongKind
    sourceFolder := ← es.need "source_dir"
    exclude := (← es.need "exclude").listing .noSuchPart }

namespace Disk

/-- The first of some files that exists below a root. -/
def findBuildFile? (d : Disk) (root : Path) (candidates : List String) : Option Path :=
  (candidates.map fun n => root.join (.ofText n)).find? d.isFile

/-- The names of the source files directly in a folder. -/
def sourceNames (d : Disk) (ls : Languages) (place : List String) : List String :=
  (d.fileNames place).filter fun name => ls.hasKey (Path.extension ⟨"", [name]⟩)

/-- Goes down from a folder: its source files, and then those of each of its folders in turn.  What
is excluded, by the names that lead to it from where the walk started, is passed by; a folder with
all that is below it. -/
def walk (d : Disk) (ls : Languages) (exclude : List String) (place names : List String) :
    List (List String) :=
  let keeps (name : String) : Bool := !excludes exclude ⟨"", names ++ [name]⟩
  ((d.sourceNames ls place).filter keeps).map (fun name => names ++ [name]) ++
    ((d.folderNames place).filter keeps).attach.flatMap fun name =>
      walk d ls exclude (place ++ [name.val]) (names ++ [name.val])
termination_by d.extent - place.length
decreasing_by
  have hdeep := length_lt_extent (List.mem_filter.1 name.property).1
  rw [List.length_append, List.length_singleton]
  omega

/-- The source files below a folder, as a walk meets them. -/
def sourcesBelow (d : Disk) (ls : Languages) (folder : Path) (exclude : List String) : List Path :=
  match d.locate? folder with
  | none => []
  | some place =>
    if d.hasFolder place then
      (d.walk ls exclude place []).map fun names => ⟨folder.anchor, folder.parts ++ names⟩
    else []

/-- The source files below a folder, in path order. -/
def discover (d : Disk) (ls : Languages) (folder : Path) (exclude : List String) : List Path :=
  (d.sourcesBelow ls folder exclude).mergeSort Path.le

/-- The folders and source files directly in a folder, by name. -/
def entriesIn (d : Disk) (ls : Languages) (folder : Path) : List String :=
  match d.locate? folder with
  | none => []
  | some place => d.sourceNames ls place ++ d.folderNames place

end Disk

namespace DiscoveryRules

/-- The build file of a root. -/
def findBuildFile (rules : DiscoveryRules) (d : Disk) (root : Path) :
    Except Fault (Option Path) := do
  let found := d.findBuildFile? root rules.buildFiles.texts
  rules.buildFiles.settle found.isSome
  return found

/-- The source files below a folder.  Patterns that break off are a fault for the first entry that
they do not exclude, and every entry lies in one directly in the folder. -/
def discover (rules : DiscoveryRules) (d : Disk) (ls : Languages) (folder : Path) :
    Except Fault (List Path) := do
  (d.entriesIn ls folder).forM fun name =>
    rules.exclude.settle (excludes rules.exclude.texts ⟨"", [name]⟩)
  return d.discover ls folder rules.exclude.texts

end DiscoveryRules

end RouteLens
