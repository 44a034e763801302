import RouteLens.Note
import RouteLens.Project.Discovery
import RouteLens.Source.Reading

/-!
# Projects

The source files of one root.  A file is read when it is first asked for, and what was read then
stays, whatever happens to the file later.
-/

namespace RouteLens

variable {edition : Nat} [CharacterNames edition]

/-- The files of a root and what has been read of them. -/
structure Project where
  root : Path
  files : List Path
  buildFile : Option Path
  units : List (Path × Option SourceUnit)

/-- What a project reads from, and the notes it leaves, the last one first. -/
structure Loading where
  disk : Disk
  languages : Languages
  project : Project
  notes : List Note

namespace Project

/-- A project without a build file is read as a whole when it is loaded. -/
def eager (p : Project) : Bool :=
  p.buildFile.isNone

/-- Reads a file of a project. -/
def readUnit (d : Disk) (path : Path) : Except Unusable SourceUnit :=
  match d.read? path with
  | none => .error .missing
  | some bytes => SourceUnit.ofBytes path bytes

/-- The note about a file that is unusable. -/
def unusableNote (path : Path) : Unusable → Note
  | .missing =>
    .fileUnreadable path ("[Errno 2] No such file or directory: " ++ Text.quote path.toText)
  | .encoding f => .fileUnreadable path f.message
  | .nullCharacter => .fileUnreadable path "source code string cannot contain null bytes"
  | .malformed => .fileMalformed path

/-- The unit of a path, read now unless it was read before; files that do not belong to the project
have none. -/
def unit (path : Path) : StateM Loading (Option SourceUnit) := do
  let s ← get
  match s.project.units.lookup path with
  | some u => return u
  | none =>
    if !s.project.files.contains path then return none
    let (u, notes) := if (s.languages.languageOf? path).isNone then (none, s.notes) else
      match readUnit s.disk path with
      | .ok u => (some u, s.notes)
      | .error e => (none, unusableNote path e :: s.notes)
    set { s with notes, project := { s.project with units := (path, u) :: s.project.units } }
    return u

/-- The usable units of some paths, in order. -/
def unitsOf : List Path → StateM Loading (List SourceUnit)
  | [] => return []
  | p :: ps => do
    let u ← unit p
    let rest ← unitsOf ps
    return u.toList ++ rest

/-- The first of some paths whose unit declares a class. -/
def firstWith (name : String) : List Path → StateM Loading (Option ClassDecl)
  | [] => return none
  | p :: ps => do
    match (← unit p).bind (·.findClass? name) with
    | some c => return some c
    | none => firstWith name ps

/-- A bound on the number of classes of a file: their number if it was read, else a little more than
the number of its bytes. -/
def sizeAt (d : Disk) (p : Project) (path : Path) : Nat :=
  match p.units.lookup path with
  | some (some u) => u.classes.length
  | some none => 0
  | none => ((d.read? path).map (·.length + 16)).getD 0

/-- A bound on the number of classes that a project declares. -/
def size (d : Disk) (p : Project) : Nat :=
  p.files.foldr (fun path total => p.sizeAt d path + total) 0

/-- Loads the project of a root. -/
def load (d : Disk) (ls : Languages) (rules : DiscoveryRules) (root : Path) :
    Except Fault (Project × List Note) := do
  match ← rules.findBuildFile d root with
  | some build =>
    let files ← rules.discover d ls root
    return (⟨root, files, some build, []⟩, [.projectLoaded root build files.length])
  | none =>
    let folder := root.join (.ofText (← rules.sourceFolder.asText))
    let files ← rules.discover d ls folder
    let (units, s) := (unitsOf files).run ⟨d, ls, ⟨root, files, none, []⟩, []⟩
    return (s.project, .sourcesLoaded root folder units.length files.length :: s.notes)

end Project

end RouteLens
