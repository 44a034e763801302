import RouteLens.Source.Declaration
import RouteLens.Text.Utf8

/-!
# Reading source files

A file becomes a source unit if its bytes are text and the text follows the grammar; else it is
unusable, and why is kept for the log.
-/

namespace RouteLens

variable {edition : Nat} [CharacterNames edition]

/-- Why a file is unusable. -/
inductive Unusable where
  | missing
  | encoding (f : Utf8Fault)
  | nullCharacter
  | malformed

/-- Reads the text of a source file. -/
def SourceUnit.ofText (path : Path) (text : String) : Except Unusable SourceUnit :=
  let unified := String.ofList (unifyLineEnds text.toList)
  match readSource unified with
  | .ok body => .ok ⟨path, unified, body⟩
  | .error .malformed => .error .malformed
  | .error .nullCharacter => .error .nullCharacter

/-- Reads the bytes of a source file. -/
def SourceUnit.ofBytes (path : Path) (bytes : List UInt8) : Except Unusable SourceUnit :=
  match Utf8.decode bytes with
  | .error f => .error (.encoding f)
  | .ok text => SourceUnit.ofText path text

end RouteLens
