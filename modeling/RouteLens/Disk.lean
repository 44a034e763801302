import RouteLens.Fault
import RouteLens.Path

/-!
# Files on disk

The part of a file system that matters: files with their bytes, and folders.  Every file makes the
folders above it exist.  A path with `..` is followed name by name, so that it has to go through
folders that exist.
-/

namespace RouteLens

/-- Files by the names of their paths, and folders that exist without files. -/
structure Disk where
  files : List (List String × List UInt8)
  folders : List (List String)

namespace Disk

/-- A disk with one empty folder. -/
def withFolder (folder : Path) : Disk :=
  ⟨[], [folder.parts]⟩

/-- Whether names lead to a folder. -/
def hasFolder (d : Disk) (parts : List String) : Bool :=
  parts.isEmpty || d.folders.any parts.isPrefixOf ||
    d.files.any fun f => parts.isPrefixOf f.1 && parts != f.1

/-- Follows names from a folder on. -/
def follow (d : Disk) (done : List String) : List String → Option (List String)
  | [] => some done.reverse
  | p :: ps =>
    if !d.hasFolder done.reverse then none
    else if p == ".." then d.follow (done.drop 1) ps
    else d.follow (p :: done) ps

/-- Where an absolute path leads. -/
def locate? (d : Disk) (p : Path) : Option (List String) :=
  d.follow [] p.parts

/-- The bytes of a file. -/
def read? (d : Disk) (p : Path) : Option (List UInt8) := do
  d.files.lookup (← d.locate? p)

/-- Whether a path leads to a file. -/
def isFile (d : Disk) (p : Path) : Bool :=
  (d.read? p).isSome

/-- Whether a path leads to a folder. -/
def isFolder (d : Disk) (p : Path) : Bool :=
  (d.locate? p).any d.hasFolder

/-- Puts the bytes of a file in place. -/
def putFile (parts : List String) (bytes : List UInt8) :
    List (List String × List UInt8) → List (List String × List UInt8)
  | [] => [(parts, bytes)]
  | f :: fs => if f.1 = parts then (parts, bytes) :: fs else f :: putFile parts bytes fs

/-- Writes a file, with the folders above it. -/
def write (d : Disk) (p : Path) (bytes : List UInt8) : Disk :=
  { d with files := putFile (Path.collapse [] p.parts) bytes d.files }

/-- The place of a file that may not exist yet, from a folder on. -/
def place (d : Disk) (done : List String) : List String → Except Fault (List String)
  | [] => .ok done.reverse
  | p :: ps =>
    if (d.files.lookup done.reverse).isSome then .error .notDirectory
    else if !d.hasFolder done.reverse then .error .fileMissing
    else if p == ".." then d.place (done.drop 1) ps
    else d.place (p :: done) ps

/-- Writes a file whose folder has to exist. -/
def create (d : Disk) (p : Path) (bytes : List UInt8) : Except Fault Disk := do
  let parts ← d.place [] p.parts
  if d.hasFolder parts then throw .isDirectory
  return { d with files := putFile parts bytes d.files }

/-- Removes a file; its folder stays. -/
def remove (d : Disk) (p : Path) : Disk :=
  match d.locate? p with
  | none => d
  | some parts =>
    { files := d.files.filter fun f => f.1 != parts
      folders := parts.dropLast :: d.folders }

/-- What remains of some names below a folder. -/
def inside? (place names : List String) : Option (List String) :=
  if place.isPrefixOf names then some (names.drop place.length) else none

/-- The names of the files directly in a folder. -/
def fileNames (d : Disk) (place : List String) : List String :=
  (d.files.filterMap fun f =>
    match inside? place f.1 with
    | some [name] => some name
    | _ => none).eraseDups

/-- The names of the folders directly in a folder. -/
def folderNames (d : Disk) (place : List String) : List String :=
  ((d.files.filterMap fun f =>
    match inside? place f.1 with
    | some (name :: _ :: _) => some name
    | _ => none) ++
  d.folders.filterMap fun f => (inside? place f).bind List.head?).eraseDups

/-- The number of all names in the paths of a disk, which no path is longer than. -/
def extent (d : Disk) : Nat :=
  d.files.foldr (fun f total => f.1.length + total) 0 +
    d.folders.foldr (fun f total => f.length + total) 0

theorem inside?_eq_some_iff {place names rest : List String} :
    inside? place names = some rest ↔ names = place ++ rest := by
  unfold inside?
  constructor
  · intro h
    split at h
    · rename_i hprefix
      obtain ⟨tail, rfl⟩ := List.isPrefixOf_iff_prefix.1 hprefix
      cases h
      simp
    · cases h
  · rintro rfl
    simp

theorem mem_fileNames_iff {d : Disk} {place : List String} {name : String} :
    name ∈ d.fileNames place ↔ ∃ bytes, (place ++ [name], bytes) ∈ d.files := by
  rw [fileNames, List.mem_eraseDups, List.mem_filterMap]
  constructor
  · rintro ⟨⟨names, bytes⟩, hmem, h⟩
    split at h
    · rename_i hinside
      cases h
      exact ⟨bytes, inside?_eq_some_iff.1 hinside ▸ hmem⟩
    · cases h
  · rintro ⟨bytes, hmem⟩
    exact ⟨_, hmem, by rw [inside?_eq_some_iff.2 rfl]⟩

/-- A folder is in another one if a file or a folder makes it exist. -/
theorem mem_folderNames_iff {d : Disk} {place : List String} {name : String} :
    name ∈ d.folderNames place ↔
      (∃ rest bytes, rest ≠ [] ∧ (place ++ name :: rest, bytes) ∈ d.files) ∨
        ∃ rest, place ++ name :: rest ∈ d.folders := by
  rw [folderNames, List.mem_eraseDups, List.mem_append, List.mem_filterMap, List.mem_filterMap]
  refine or_congr ⟨?_, ?_⟩ ⟨?_, ?_⟩
  · rintro ⟨⟨names, bytes⟩, hmem, h⟩
    split at h
    · rename_i first second rest hinside
      cases h
      exact ⟨second :: rest, bytes, List.cons_ne_nil _ _, inside?_eq_some_iff.1 hinside ▸ hmem⟩
    · cases h
  · rintro ⟨rest, bytes, hne, hmem⟩
    obtain ⟨second, rest, rfl⟩ := List.exists_cons_of_ne_nil hne
    exact ⟨_, hmem, by rw [inside?_eq_some_iff.2 rfl]⟩
  · rintro ⟨names, hmem, h⟩
    obtain ⟨rest, hinside, hhead⟩ := Option.bind_eq_some_iff.1 h
    obtain ⟨rest, rfl⟩ := List.head?_eq_some_iff.1 hhead
    exact ⟨rest, inside?_eq_some_iff.1 hinside ▸ hmem⟩
  · rintro ⟨rest, hmem⟩
    exact ⟨_, hmem, by rw [inside?_eq_some_iff.2 rfl]; rfl⟩

theorem le_foldr_of_mem {α : Type} (length : α → Nat) {l : List α} {a : α} (h : a ∈ l) :
    length a ≤ l.foldr (fun a total => length a + total) 0 := by
  induction l with
  | nil => cases h
  | cons b l ih =>
    rw [List.foldr_cons]
    rcases List.mem_cons.1 h with rfl | h
    · omega
    · have := ih h
      omega

/-- Folders are found only as deep as the paths of a disk go. -/
theorem length_lt_extent {d : Disk} {place : List String} {name : String}
    (h : name ∈ d.folderNames place) : place.length < d.extent := by
  unfold extent
  rcases mem_folderNames_iff.1 h with ⟨rest, bytes, -, hmem⟩ | ⟨rest, hmem⟩
  · have := le_foldr_of_mem (fun f : List String × List UInt8 => f.1.length) hmem
    simp only [List.length_append, List.length_cons] at this
    omega
  · have := le_foldr_of_mem List.length hmem
    simp only [List.length_append, List.length_cons] at this
    omega

end Disk

end RouteLens
