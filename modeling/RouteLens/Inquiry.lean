import RouteLens.Note
import RouteLens.Source.Declaration

/-!
# Inquiries

An analysis that looks up classes by name while it runs.  An inquiry is a tree of questions: it asks
for a class, goes on with the answer, and ends with a result or a fault.  The same inquiry can be
answered from a fixed table of classes (`Inquiry.answer`) or by a session that loads files on the
way, so that what an analysis computes is kept apart from where the classes come from.
-/

namespace RouteLens

/-- An analysis that may look up classes. -/
inductive Inquiry (α : Type) where
  | done (a : α)
  | fail (f : Fault)
  | find (name : String) (next : Option ClassDecl → Inquiry α)
  | declarations (name : String) (next : List ClassDecl → Inquiry α)
  | note (n : Note) (next : Inquiry α)

namespace Inquiry

variable {α β : Type}

/-- Goes on with the result. -/
def bind (q : Inquiry α) (f : α → Inquiry β) : Inquiry β :=
  match q with
  | .done a => f a
  | .fail e => .fail e
  | .find name next => .find name fun c => (next c).bind f
  | .declarations name next => .declarations name fun cs => (next cs).bind f
  | .note n next => .note n (next.bind f)

instance : Monad Inquiry where
  pure := .done
  bind := bind

/-- A result that needs no look-up. -/
def ofExcept : Except Fault α → Inquiry α
  | .ok a => .done a
  | .error f => .fail f

instance : MonadLift (Except Fault) Inquiry where
  monadLift := ofExcept

/-- The class of a name. -/
def findClass (name : String) : Inquiry (Option ClassDecl) :=
  .find name .done

/-- Every class of a name. -/
def findDeclarations (name : String) : Inquiry (List ClassDecl) :=
  .declarations name .done

/-- Leaves a note. -/
def leave (n : Note) : Inquiry Unit :=
  .note n (.done ())

/-- The method of a class, if both are there. -/
def findMethod (className methodName : String) : Inquiry (Option MethodDecl) := do
  match ← findClass className with
  | none => return none
  | some c => return c.findMethod? methodName

/-- The answer to an inquiry, given the classes of every name. -/
def answer (classes : String → List ClassDecl) : Inquiry α → Except Fault α
  | .done a => .ok a
  | .fail f => .error f
  | .find name next => (next (classes name).head?).answer classes
  | .declarations name next => (next (classes name)).answer classes
  | .note _ next => next.answer classes

@[simp] theorem answer_done (classes : String → List ClassDecl) (a : α) :
    (Inquiry.done a).answer classes = .ok a := rfl

theorem answer_bind (classes : String → List ClassDecl) (q : Inquiry α) (f : α → Inquiry β) :
    (q.bind f).answer classes =
      match q.answer classes with
      | .ok a => (f a).answer classes
      | .error e => .error e := by
  induction q with
  | done a => rfl
  | fail e => rfl
  | find name next ih => simpa [bind, answer] using ih _
  | declarations name next ih => simpa [bind, answer] using ih _
  | note n next ih => simpa [bind, answer] using ih

section Answer

variable (classes : String → List ClassDecl)

@[simp] theorem answer_pure (a : α) : (pure a : Inquiry α).answer classes = .ok a := rfl

@[simp] theorem answer_seq (q : Inquiry α) (f : α → Inquiry β) :
    (q >>= f).answer classes = q.answer classes >>= fun a => (f a).answer classes := by
  rw [show q >>= f = q.bind f from rfl, answer_bind]
  cases q.answer classes <;> rfl

@[simp] theorem answer_lift (e : Except Fault α) :
    (liftM e : Inquiry α).answer classes = e := by
  cases e <;> rfl

@[simp] theorem answer_findClass (name : String) :
    (findClass name).answer classes = .ok (classes name).head? := rfl

@[simp] theorem answer_leave (n : Note) : (leave n).answer classes = .ok () := rfl

end Answer

end Inquiry

end RouteLens
