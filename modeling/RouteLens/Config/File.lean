import RouteLens.Config
import RouteLens.Disk
import RouteLens.Document.Reading
import RouteLens.Text.Lines
import RouteLens.Value.Equality

/-!
# Configuration files

A configuration from a settings document on disk.
-/

namespace RouteLens.Config

variable {edition : Nat} [CharacterNames edition]

/-- A configuration from the bytes of a settings document. -/
def ofBytes (bytes : List UInt8) : Except Fault Config :=
  match Utf8.decode bytes with
  | .error _ => .error .badEncoding
  | .ok s => do ofDocument (← Document.read (String.ofList (unifyLineEnds s.toList)))

/-- A configuration from a file. -/
def load (d : Disk) (p : Path) : Except Fault Config :=
  match d.read? p with
  | some bytes => ofBytes bytes
  | none => if d.isFolder p then .error .isDirectory else .error .fileMissing

/-- The sections that the default configuration does not have in the same way, and those with one
of some names. -/
def shown (c : Config) (names : List String) : Entries :=
  c.sections.filter fun e =>
    names.any (fun n => e.1.sameKey (.text n)) ||
      !(Value.lookup e.1 default.sections).any (·.same e.2)

end RouteLens.Config
