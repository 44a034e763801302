import RouteLens.Payload.Synthesis
import RouteLens.Proofs.Payload.AnnotationForms

/-!
# The recursion behind payloads

Payload synthesis as it recurs, with nothing in it that would stop it: annotations are read wherever
they are met, quoted ones after they have been read as expressions, the bases of a class are
followed as long as there are unvisited ones, and nested classes are entered until the greatest
depth is reached.  What the functions come to is said by how deep calls may nest: `f n` is what `f`
comes to when it nests at most `n` calls, and nothing if it nests more.  A recursion that goes on
forever comes to nothing for every `n`; one that ends has an outcome from some `n` on (`Ends`).
-/

namespace RouteLens

variable {edition : Nat} [CharacterNames edition]

namespace Recursion

/-- The outcome of a recursion, which may be a fault; `none` if its calls nest too deep. -/
abbrev Run (α : Type) := ExceptT Fault Option α

/-- Calls nest too deep. -/
def tooDeep {α : Type} : Run α := ExceptT.mk none

/-! ## How runs end -/

section Ends

variable {α β γ δ : Type}

/-- A recursion ends like a result: from some depth of calls on, it has one outcome, which is a
related value or the same fault. -/
inductive Ends (R : α → β → Prop) (x : Nat → Run α) : Except Fault β → Prop
  | ok {a : α} {b : β} (least : Nat) (hx : ∀ n, least ≤ n → x n = some (.ok a)) (h : R a b) :
      Ends R x (.ok b)
  | error {f : Fault} (least : Nat) (hx : ∀ n, least ≤ n → x n = some (.error f)) :
      Ends R x (.error f)

variable {R : α → β → Prop} {S : γ → δ → Prop}

theorem ends_pure {a : α} {b : β} (h : R a b) : Ends R (fun _ => pure a) (.ok b) :=
  .ok 0 (fun _ _ => rfl) h

theorem ends_lift (y : Except Fault α) : Ends Eq (fun _ => (liftM y : Run α)) y := by
  cases y with
  | ok a => exact .ok 0 (fun _ _ => rfl) rfl
  | error f => exact .error 0 fun _ _ => rfl

/-- The outermost call does not matter. -/
theorem Ends.of_succ {x : Nat → Run α} {y : Except Fault β} (h : Ends R (fun n => x (n + 1)) y) :
    Ends R x y := by
  have shift {v : Except Fault α} {least : Nat} (hx : ∀ n, least ≤ n → x (n + 1) = some v)
      (n : Nat) (hn : least + 1 ≤ n) : x n = some v := by
    obtain ⟨n, rfl⟩ := Nat.exists_eq_succ_of_ne_zero (Nat.ne_zero_of_lt hn)
    exact hx n (Nat.le_of_succ_le_succ hn)
  cases h with
  | ok least hx h => exact .ok (least + 1) (shift hx) h
  | error least hx => exact .error (least + 1) (shift hx)

section Bind

variable {x : Nat → Run α} {k : α → Nat → Run γ} {least : Nat}

theorem ends_bind_ok {a : α} {y : Except Fault δ} (hx : ∀ n, least ≤ n → x n = some (.ok a))
    (hk : Ends S (k a) y) : Ends S (fun n => x n >>= fun a => k a n) y := by
  have step {v : Except Fault γ} {least' : Nat} (hv : ∀ n, least' ≤ n → k a n = some v) (n : Nat)
      (hn : max least least' ≤ n) : (x n >>= fun a => k a n) = some v := by
    rw [hx n (Nat.le_trans (Nat.le_max_left ..) hn)]
    exact hv n (Nat.le_trans (Nat.le_max_right ..) hn)
  cases hk with
  | ok least' hv h => exact .ok _ (step hv) h
  | error least' hv => exact .error _ (step hv)

theorem ends_bind_error {f : Fault} (hx : ∀ n, least ≤ n → x n = some (.error f)) :
    Ends S (fun n => x n >>= fun a => k a n) (.error f) := by
  refine .error least fun n hn => ?_
  rw [hx n hn]
  rfl

theorem Ends.bind {y : Except Fault β} {k' : β → Except Fault δ} (h : Ends R x y)
    (hk : ∀ a b, y = .ok b → R a b → Ends S (k a) (k' b)) :
    Ends S (fun n => x n >>= fun a => k a n) (y >>= k') := by
  cases h with
  | ok least hx hab => exact ends_bind_ok hx (hk _ _ rfl hab)
  | error least hx => exact ends_bind_error hx

end Bind

theorem Ends.exists_least {x : Nat → Run α} {y : Except Fault α} (h : Ends Eq x y) :
    ∃ least, ∀ n, least ≤ n → x n = some y := by
  cases h with
  | ok least hx hab => exact ⟨least, hab ▸ hx⟩
  | error least hx => exact ⟨least, hx⟩

theorem ends_mapM {f : Nat → α → Run β} {g : α → Except Fault β} {as : List α}
    (h : ∀ a ∈ as, Ends Eq (fun n => f n a) (g a)) :
    Ends Eq (fun n => as.mapM (f n)) (as.mapM g) := by
  induction as with
  | nil => exact ends_pure rfl
  | cons a as ih =>
    simp only [List.mapM_cons]
    refine (h a List.mem_cons_self).bind fun b _ _ hb => hb ▸ ?_
    refine (ih fun a ha => h a (List.mem_cons_of_mem _ ha)).bind fun bs _ _ hbs => hbs ▸ ?_
    exact ends_pure rfl

end Ends

/-! ## Annotations -/

/-- The class that an annotation refers to. -/
def typeName : Nat → Expr → Run (Option String)
  | 0, _ => tooDeep
  | n + 1, .node _ form =>
    match form with
    | .name id => return some id
    | .attribute _ attr => return some attr
    | .constant (.text s _) => do
      match ← readQuoted s with
      | none => return none
      | some e => typeName n e
    | .subscript value index => do
      match ← typeName n value with
      | none => return none
      | some name =>
        if transparentWrappers.contains name then typeName n (firstTypeArgument index)
        else if name == "Union" then
          match (typeArguments index).find? (!·.isNull) with
          | none => return none
          | some e => typeName n e
        else return some name
    | .binary left .bitOr right => if left.isNull then typeName n right else typeName n left
    | _ => return none

/-- What is known about a field, with the annotations of its elements still to be read. -/
structure Shape where
  facts : FieldFacts
  element : Option Expr
  fixed : Option (List Expr)

namespace Shape

/-- Nothing known but the text of the annotation. -/
def unknown (typeText : String) : Shape := ⟨{ typeText }, none, none⟩

/-- Changes the facts. -/
def mapFacts (f : FieldFacts → FieldFacts) (t : Shape) : Shape := { t with facts := f t.facts }

/-- Changes the facts by a step that may fail. -/
def learn (t : Shape) (f : FieldFacts → Except Fault FieldFacts) : Except Fault Shape := do
  return { t with facts := ← f t.facts }

/-- Puts in the annotation of the elements. -/
def withElement (t : Shape) (e : Option Expr) : Shape := { t with element := e <|> t.element }

/-- The annotations of the elements of an array that has no more of them than it needs. -/
def elements (t : Shape) : List (Option Expr) :=
  match t.fixed with
  | some es => es.map some
  | none => List.replicate (max 1 (t.facts.minLength.getD 0)).toNat t.element

/-- Adds what a call that constrains a type says. -/
def constrain (name : String) (args : List Expr) (keywords : List Keyword) (t : Shape) :
    Except Fault Shape :=
  match constrainedKind? name with
  | some kind => t.learn fun f => { f with kind := some kind }.constrainAll keywords
  | none =>
    if isArrayCall name then
      let t := (t.mapFacts ({ · with isArray := true })).withElement args.head?
      (t.withElement (itemTypeExpr? keywords)).learn (·.constrainAll keywords)
    else if name == "condate" then .ok (t.mapFacts ({ · with format := some .date }))
    else .ok t

end Shape

/-- Adds what an annotation says to what is known. -/
def readType : Nat → Expr → Shape → Run Shape
  | 0, _, _ => tooDeep
  | n + 1, .node _ form, t =>
    match form with
    | .constant (.text s _) => do
      match ← readQuoted s with
      | none => return t
      | some e => readType n e t
    | .binary left .bitOr right =>
      let t := if left.isNull || right.isNull then t.mapFacts ({ · with optional := true }) else t
      match [left, right].find? (!·.isNull) with
      | none => return t
      | some e => readType n e t
    | .call func args keywords => t.constrain (func.terminalName?.getD "") args keywords
    | .subscript base index => do
      let name ← typeName n base
      match typeArguments index with
      | [] => return t.mapFacts ({ · with classRef := name })
      | first :: rest =>
        match Wrapper.ofName name with
        | .annotated =>
          let t ← readType n first t
          t.learn fun f => rest.foldlM FieldFacts.applyMetadata f
        | .optional => readType n first (t.mapFacts ({ · with optional := true }))
        | .required => readType n first (t.mapFacts ({ · with requiredMarker := true }))
        | .classVar => return t.mapFacts ({ · with skip := true })
        | .transparent => readType n first t
        | .union =>
          let args := first :: rest
          let t := if args.any Expr.isNull then t.mapFacts ({ · with optional := true }) else t
          match args.find? (!·.isNull) with
          | none => return t
          | some e => readType n e t
        | .literal => return t.mapFacts ({ · with choices := some (choicesOf (first :: rest)) })
        | .array => return (t.mapFacts ({ · with isArray := true })).withElement (some first)
        | .tuple =>
          let t := t.mapFacts ({ · with isArray := true })
          if isOpenTuple (first :: rest) then return t.withElement (some first)
          else return { t with fixed := some (first :: rest) }
        | .mapping => return t.mapFacts ({ · with isMapping := true })
        | .named c => return t.mapFacts ({ · with classRef := some c })
        | .unnamed => return t
    | .name id => return t.mapFacts (·.applyTypeName id)
    | .attribute _ attr => return t.mapFacts (·.applyTypeName attr)
    | _ => return t

/-- What a field declaration says. -/
def fieldType (n : Nat) (p : PropertyDecl) : Run Shape := do
  let t ← readType n p.typeExpr (.unknown p.typeExpr.print)
  match p.value with
  | none => return t
  | some v =>
    if FieldFacts.isEllipsis v then return t
    match v with
    | .node _ (.call func args keywords) =>
      if FieldFacts.isFieldCall func.terminalName? then
        t.learn (·.declareField args keywords)
      else return t.mapFacts ({ · with optional := true })
    | _ => return t.mapFacts ({ · with optional := true })

/-! ## Classes -/

section Classes

open PayloadRules

variable (classes : String → List ClassDecl) (r : PayloadRules)

/-- The names of the bases of a class. -/
def baseNames (n : Nat) (c : ClassDecl) : Run (List String) := do
  return (← c.bases.mapM (typeName n)).filterMap id

/-- The bases of a class that the project declares. -/
def projectBases (n : Nat) (c : ClassDecl) : Run (List ClassDecl) := do
  let names ← baseNames n c
  let looked := names.filter fun b => !(r.schemaBases.contains b || r.enumBases.contains b)
  return (looked.filterMap fun b => (classes b).head?).filter (·.key ≠ c.key)

mutual

/-- Whether a class has one of the named bases, directly or through its bases. -/
def hasBaseFrom (names : List String) : Nat → ClassDecl → Visited → Run (Bool × Visited)
  | 0, _, _ => tooDeep
  | n + 1, c, seen => do
    if seen.contains c.key then return (false, seen)
    if (← baseNames n c).any names.contains then return (true, c.key :: seen)
    anyHasBase names n (← projectBases classes r n c) (c.key :: seen)

/-- Whether one of some classes has one of the named bases. -/
def anyHasBase (names : List String) : Nat → List ClassDecl → Visited → Run (Bool × Visited)
  | 0, _, _ => tooDeep
  | _ + 1, [], seen => return (false, seen)
  | n + 1, c :: cs, seen => do
    let (found, seen) ← hasBaseFrom names n c seen
    if found then return (true, seen) else anyHasBase names n cs seen

end

mutual

/-- The fields of a class, inherited ones first. -/
def fieldsFrom : Nat → ClassDecl → Visited → Run (Ordered PropertyDecl × Visited)
  | 0, _, _ => tooDeep
  | n + 1, c, seen => do
    if seen.contains c.key then return ([], seen)
    let (inherited, seen) ← mergedFields n (← projectBases classes r n c) [] (c.key :: seen)
    return (inherited.overlay (c.properties.map fun p => (p.name, p)), seen)

/-- The fields of some bases, merged in order. -/
def mergedFields : Nat → List ClassDecl → Ordered PropertyDecl → Visited →
    Run (Ordered PropertyDecl × Visited)
  | 0, _, _, _ => tooDeep
  | _ + 1, [], done, seen => return (done, seen)
  | n + 1, c :: cs, done, seen => do
    let (found, seen) ← fieldsFrom n c seen
    mergedFields n cs (done.overlay found) seen

end

/-- Whether a class has one of the named bases. -/
def hasBase (names : List String) (n : Nat) (c : ClassDecl) : Run Bool := do
  return (← hasBaseFrom classes r names n c []).1

/-- The fields of a class. -/
def fields (n : Nat) (c : ClassDecl) : Run (Ordered PropertyDecl) := do
  return (← fieldsFrom classes r n c []).1

/-- Whether a class has fields. -/
def isStructured (n : Nat) (c : ClassDecl) : Run Bool := do
  if ← hasBase classes r r.enumBases n c then return false
  if c.decoratorNames.contains "dataclass" || !c.properties.isEmpty then return true
  hasBase classes r r.schemaBases n c

/-- The first value of the enumeration that a field refers to. -/
def enumValue? (n : Nat) : Option ClassDecl → Run (Option Value)
  | none => return none
  | some c => do
    if ← hasBase classes r r.enumBases n c then
      let isText ← hasBase classes r ["StrEnum"] n c
      return (c.body.findSome? enumMember?).map fun m => memberValue isText m.1 m.2
    else return none

end Classes

/-! ## Payloads -/

section Payloads

open PayloadRules

variable (classes : String → List ClassDecl) (r : PayloadRules)

/-- The class that a field refers to. -/
def referenced (f : FieldFacts) : Option ClassDecl :=
  match f.classRef with
  | some n => if n.isEmpty then none else (classes n).head?
  | none => none

mutual

/-- The payload of a class at a depth. -/
def payload (maxDepth : Int) : Nat → Int → ClassDecl → Run Value
  | 0, _, _ => tooDeep
  | n + 1, depth, c => do
    return .dict (← entries maxDepth n depth (isTotal c) (← fields classes r n c))

/-- The entries of a payload for the fields that have to be given. -/
def entries (maxDepth : Int) : Nat → Int → Bool → Ordered PropertyDecl → Run (List (Value × Value))
  | 0, _, _, _ => tooDeep
  | _ + 1, _, _, [] => return []
  | n + 1, depth, total, (name, p) :: rest => do
    if Text.startsWith name "_" then entries maxDepth n depth total rest
    else
      let _ ← p.typeExpr.printed
      let t ← fieldType n p
      if isRequired total t.facts then
        t.facts.checkLength
        let v ← valueOf maxDepth n depth t
        return (.text name, v) :: (← entries maxDepth n depth total rest)
      else entries maxDepth n depth total rest

/-- The value of a field. -/
def valueOf (maxDepth : Int) : Nat → Int → Shape → Run Value
  | 0, _, _ => tooDeep
  | n + 1, depth, t => do
    match ← settled? t.facts with
    | some v => return v
    | none =>
      match ← enumValue? classes r n (referenced classes t.facts) with
      | some v => return v
      | none =>
        if t.facts.isArray then return .list (← t.elements.mapM (elementOf maxDepth n depth))
        else classValue maxDepth n depth t.facts (referenced classes t.facts)

/-- The value of a field that refers to a class, or to nothing known. -/
def classValue (maxDepth : Int) : Nat → Int → FieldFacts → Option ClassDecl → Run Value
  | 0, _, _, _ => tooDeep
  | _ + 1, _, f, none => return Fallback.sample f.typeText
  | n + 1, depth, f, some c => do
    if ← isStructured classes r n c then
      if maxDepth ≤ depth then return .dict [] else payload maxDepth n (depth + 1) c
    else return Fallback.sample f.typeText

/-- The value of an element. -/
def elementOf (maxDepth : Int) : Nat → Int → Option Expr → Run Value
  | 0, _, _ => tooDeep
  | _ + 1, _, none => return .text exampleText
  | n + 1, depth, some e => do
    let _ ← e.printed
    let t ← readType n e (.unknown e.print)
    t.facts.checkLength
    valueOf maxDepth n depth t

end

/-- The payload of a class given by its name. -/
def synthesize (n : Nat) (className : String) (maxDepth : Option Int) : Run (Option Value) :=
  match (classes className).head? with
  | none => return none
  | some c => do return some (← payload classes r (maxDepth.getD r.maxDepth) n 0 c)

end Payloads

end Recursion

end RouteLens
