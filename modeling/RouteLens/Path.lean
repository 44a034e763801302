import RouteLens.Text.Case
import RouteLens.Text.Search

/-!
# Paths

Paths as lists of names.  Empty names and `.` are dropped when a path is read; `..` stays, since
what it means depends on the directory it is looked up in.
-/

namespace RouteLens

/-- A path: what stands before the first name, and the names. -/
structure Path where
  anchor : String
  parts : List String
  deriving DecidableEq

namespace Path

/-- What stands before the first name: nothing, one slash, or exactly two. -/
def readAnchor : List Char → String
  | '/' :: '/' :: '/' :: _ => "/"
  | '/' :: '/' :: _ => "//"
  | '/' :: _ => "/"
  | _ => ""

/-- Reads a path. -/
def ofText (s : String) : Path where
  anchor := readAnchor s.toList
  parts := (Text.split '/' s).filter fun p => !(p.isEmpty || p == ".")

/-- The text of a path; the path without names is a dot. -/
def toText (p : Path) : String :=
  if p.anchor.isEmpty && p.parts.isEmpty then "." else p.anchor ++ Text.joinWith "/" p.parts

/-- Whether a path starts at the root. -/
def isAbsolute (p : Path) : Bool :=
  !p.anchor.isEmpty

/-- A path followed by another one; an absolute one takes its place. -/
def join (p q : Path) : Path :=
  if q.isAbsolute then q else ⟨p.anchor, p.parts ++ q.parts⟩

/-- The last name. -/
def fileName (p : Path) : String :=
  p.parts.getLastD ""

/-- The characters from the last dot on, if a name has a dot that is neither its first nor its last
character. -/
def suffixOf (name : List Char) : List Char :=
  let tail := name.reverse.takeWhile (· != '.')
  if tail.isEmpty || name.length ≤ tail.length + 1 then [] else '.' :: tail.reverse

/-- The file extension in lower case, with its dot. -/
def extension (p : Path) : String :=
  Text.toLower (String.ofList (suffixOf p.fileName.toList))

/-- Takes the last name away where `..` asks for it; nothing is above the root. -/
def collapse (done : List String) : List String → List String
  | [] => done.reverse
  | p :: ps => if p == ".." then collapse (done.drop 1) ps else collapse (p :: done) ps

/-- The absolute path that a path means in a directory. -/
def resolve (directory p : Path) : Path :=
  let q := directory.join p
  ⟨"/", collapse [] q.parts⟩

theorem up_not_mem_collapse {done ps : List String} (h : ".." ∉ done) :
    ".." ∉ collapse done ps := by
  induction ps generalizing done with
  | nil => simpa [collapse] using h
  | cons p ps ih =>
    unfold collapse
    split
    · exact ih fun hmem => h (List.mem_of_mem_drop hmem)
    · rename_i hp
      refine ih fun hmem => ?_
      rcases List.mem_cons.1 hmem with rfl | hmem
      · simp at hp
      · exact h hmem

theorem collapse_of_up_not_mem {done ps : List String} (h : ".." ∉ ps) :
    collapse done ps = done.reverse ++ ps := by
  induction ps generalizing done with
  | nil => simp [collapse]
  | cons p ps ih =>
    have hp : p ≠ ".." := fun e => h (by simp [e])
    have hps : ".." ∉ ps := fun hmem => h (.tail p hmem)
    simp [collapse, hp, ih hps]

/-- A path that is resolved stays as it is. -/
@[simp] theorem resolve_resolve (directory p : Path) :
    resolve directory (resolve directory p) = resolve directory p := by
  have hup : ".." ∉ collapse [] (directory.join p).parts := up_not_mem_collapse (by simp)
  have hjoin : directory.join (resolve directory p) = resolve directory p := if_pos rfl
  rw [resolve, hjoin]
  simp only [resolve, collapse_of_up_not_mem hup, List.reverse_nil, List.nil_append]

/-- What remains of a path below a directory. -/
def below? (directory p : Path) : Option (List String) :=
  if directory.parts.isPrefixOf p.parts then some (p.parts.drop directory.parts.length) else none

/-- Whether a name comes before another, by code points. -/
def nameLt (a b : String) : Bool :=
  a.toList.lex b.toList fun c d => c.toNat < d.toNat

/-- Order name by name. -/
def le (p q : Path) : Bool :=
  !q.parts.lex p.parts nameLt

end Path

/-- Whether a path is left out by exclusion patterns: `*` and an ending, or one of its names. -/
def excludes (patterns : List String) (p : Path) : Bool :=
  let text := p.toText
  patterns.any fun pattern =>
    match pattern.toList with
    | '*' :: ending => ending.isSuffixOf text.toList
    | _ => (Text.split '/' text).contains pattern

end RouteLens
