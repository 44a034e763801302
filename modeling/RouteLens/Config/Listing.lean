import RouteLens.Config.Reading
import RouteLens.Text.Search

/-!
# Listings

A list of texts as a setting gives it.  A setting may hold members that are no texts.  Such a member
is a fault only when it is reached, so a search that ends before it has a result.
-/

namespace RouteLens

/-- The texts of a setting up to the first member that is none, and the fault of reaching it. -/
structure Listing where
  texts : List String
  broken : Option Fault := none

namespace Listing

/-- The listing of some members, given the fault of a member that is no text. -/
def ofMembers (odd : Fault) : List Value → Listing
  | [] => ⟨[], none⟩
  | .text s :: vs =>
    let rest := ofMembers odd vs
    { rest with texts := s :: rest.texts }
  | _ :: _ => ⟨[], some odd⟩

/-- The listing of some members that are looked up by key.  What is no text is skipped, unless it
cannot be a key. -/
def ofKeys : List Value → Listing
  | [] => ⟨[], none⟩
  | v :: vs =>
    let rest := ofKeys vs
    match v with
    | .text s => { rest with texts := s :: rest.texts }
    | v => if v.isKey then rest else ⟨[], some .wrongKind⟩

/-- Ends a search: one that found nothing has gone through the whole listing. -/
def settle (l : Listing) (found : Bool) : Except Fault Unit :=
  match l.broken with
  | none => .ok ()
  | some f => if found then .ok () else .error f

@[simp] theorem settle_true (l : Listing) : l.settle true = .ok () := by
  unfold settle
  split <;> rfl

theorem settle_of_whole {l : Listing} (h : l.broken = none) (found : Bool) :
    l.settle found = .ok () := by
  simp [settle, h]

end Listing

namespace Value

/-- A setting as a listing; what has no members breaks it at once. -/
def listing (odd : Fault) (v : Value) : Listing :=
  match v.members with
  | .ok vs => .ofMembers odd vs
  | .error f => ⟨[], some f⟩

/-- Whether a text is a member of a setting.  A text has its parts as members. -/
def hasText (s : String) : Value → Except Fault Bool
  | .text t => .ok (Text.holds t s)
  | .list vs => .ok (vs.any fun v => v.text? == some s)
  | .dict es => .ok (es.any fun e => e.1.text? == some s)
  | _ => .error .wrongKind

end Value

/-- The value of a key as a listing; an absent key stands for an empty one. -/
def Entries.listing (es : Entries) (odd : Fault) (key : String) : Listing :=
  match Value.get? es key with
  | some v => v.listing odd
  | none => ⟨[], none⟩

end RouteLens
