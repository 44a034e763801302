import RouteLens.Document.Lexeme
import RouteLens.Document.Scalar

/-!
# Content of a document

The tree of scalars, sequences and mappings that lexemes spell out.  A part can have a label, and a
reference to the label stands for that part.
-/

namespace RouteLens.Document

variable {edition : Nat} [CharacterNames edition]

/-- A part of a document. -/
inductive Content where
  | scalar (tag : Tag) (text : String)
  | sequence (tag : Tag) (items : List Content)
  | mapping (tag : Tag) (entries : List (Content × Content))

namespace Content

/-- What stands where nothing is written. -/
def empty : Content :=
  .scalar .null ""

end Content

/-- How far the lexemes of a document have been read. -/
structure Composing where
  rest : List Lexeme
  labels : List (String × Content) := []
  handles : List (String × String) := []

/-- Reading lexemes. -/
abbrev Compose := StateT Composing (Except Fault)

namespace Compose

/-- The document is refused. -/
def refuse {α : Type} : Compose α :=
  throw .badDocument

/-- The next lexeme. -/
def next? : Compose (Option Lexeme) := do
  return (← get).rest.head?

/-- Moves over a lexeme. -/
def skip : Compose Unit :=
  modify fun s => { s with rest := s.rest.tail }

/-- Whether one of some lexemes comes next. -/
def stands (ls : List Lexeme) : Compose Bool := do
  return (← next?).any ls.contains

/-- Takes a lexeme, if it comes next. -/
def accept (l : Lexeme) : Compose Bool := do
  let found ← stands [l]
  if found then skip
  return found

/-- Takes a lexeme that has to come next. -/
def expect (l : Lexeme) : Compose Unit := do
  if !(← accept l) then refuse

/-- The full name of a tag. -/
def tagName (handle : Option String) (rest : String) : Compose String := do
  match handle with
  | none => return rest
  | some h =>
    match (← get).handles.lookup h with
    | some full => return full ++ rest
    | none => refuse

/-- A label. -/
def label? : Compose (Option String) := do
  match ← next? with
  | some (.label name) => skip; return some name
  | _ => return none

/-- A tag, as it is written. -/
def tag? : Compose (Option (Option String × String)) := do
  match ← next? with
  | some (.tag handle rest) => skip; return some (handle, rest)
  | _ => return none

/-- The label and the tag of a part, in either order. -/
def properties : Compose (Option String × Option String) := do
  let before ← label?
  let tag ← tag?
  let label ← if before.isNone && tag.isSome then label? else pure before
  match tag with
  | some (handle, rest) => return (label, some (← tagName handle rest))
  | none => return (label, none)

/-- The tag of a scalar: what is written, else what the form of a plain text says. -/
def scalarTag (name : Option String) (text : String) (plain : Bool) : Tag :=
  match name with
  | none => if plain then Scalar.tagOf text else .text
  | some "!" => Scalar.tagOf text
  | some s => .ofName s

/-- The tag of a collection: what is written, else the usual one. -/
def collectionTag (name : Option String) (usual : Tag) : Tag :=
  match name with
  | none => usual
  | some s => if s == "!" then usual else .ofName s

/-- Gives a part its label. -/
def setLabel (label : Option String) (c : Content) : Compose Content := do
  match label with
  | none => return c
  | some name =>
    let s ← get
    if (s.labels.lookup name).isSome then refuse
    set { s with labels := (name, c) :: s.labels }
    return c

mutual

/-- A part.  Blocks may stand where `block` says so, and a sequence that is not indented where
`flush` says so. -/
def part (block flush : Bool) : Nat → Compose Content
  | 0 => refuse
  | n + 1 => do
    if let some (.reference name) := ← next? then
      skip
      match (← get).labels.lookup name with
      | some c => return c
      | none => refuse
    let (label, name) ← properties
    match ← next? with
    | some (.scalar text plain) =>
      skip
      setLabel label (.scalar (scalarTag name text plain) text)
    | some .flowSequence =>
      skip
      setLabel label (.sequence (collectionTag name .sequence) (← flowItems true n))
    | some .flowMapping =>
      skip
      setLabel label (.mapping (collectionTag name .mapping) (← flowEntries true n))
    | some l =>
      if l = .entry && flush then
        setLabel label (.sequence (collectionTag name .sequence) (← flushItems n))
      else if l = .blockSequence && block then
        skip
        setLabel label (.sequence (collectionTag name .sequence) (← blockItems n))
      else if l = .blockMapping && block then
        skip
        setLabel label (.mapping (collectionTag name .mapping) (← blockEntries n))
      else bare label name
    | none => bare label name
where
  /-- A label or a tag with nothing behind it. -/
  bare (label name : Option String) : Compose Content := do
    if label.isNone && name.isNone then refuse
    setLabel label (.scalar (scalarTag name "" true) "")

/-- A part, or nothing if one of some lexemes comes next. -/
def partUnless (block flush : Bool) (stops : List Lexeme) : Nat → Compose Content
  | 0 => refuse
  | n + 1 => do
    if ← stands stops then return .empty else part block flush n

/-- The items of an indented sequence. -/
def blockItems : Nat → Compose (List Content)
  | 0 => refuse
  | n + 1 => do
    if ← accept .entry then
      let item ← partUnless true false [.entry, .blockEnd] n
      return item :: (← blockItems n)
    expect .blockEnd
    return []

/-- The items of a sequence that is not indented. -/
def flushItems : Nat → Compose (List Content)
  | 0 => refuse
  | n + 1 => do
    if ← accept .entry then
      let item ← partUnless true false [.entry, .key, .value, .blockEnd] n
      return item :: (← flushItems n)
    return []

/-- The entries of an indented mapping. -/
def blockEntries : Nat → Compose (List (Content × Content))
  | 0 => refuse
  | n + 1 => do
    if ← accept .key then
      let key ← partUnless true true [.key, .value, .blockEnd] n
      let value ←
        if ← accept .value then partUnless true true [.key, .value, .blockEnd] n
        else pure .empty
      return (key, value) :: (← blockEntries n)
    expect .blockEnd
    return []

/-- The items of a sequence in brackets. -/
def flowItems (first : Bool) : Nat → Compose (List Content)
  | 0 => refuse
  | n + 1 => do
    if ← accept .flowSequenceEnd then return []
    if !first then
      expect .comma
      if ← accept .flowSequenceEnd then return []
    let item ←
      if ← accept .key then do
        let key ← partUnless false false [.value, .comma, .flowSequenceEnd] n
        let value ←
          if ← accept .value then partUnless false false [.comma, .flowSequenceEnd] n
          else pure .empty
        pure (.mapping .mapping [(key, value)])
      else part false false n
    return item :: (← flowItems false n)

/-- The entries of a mapping in braces. -/
def flowEntries (first : Bool) : Nat → Compose (List (Content × Content))
  | 0 => refuse
  | n + 1 => do
    if ← accept .flowMappingEnd then return []
    if !first then
      expect .comma
      if ← accept .flowMappingEnd then return []
    let entry ←
      if ← accept .key then do
        let key ← partUnless false false [.value, .comma, .flowMappingEnd] n
        let value ←
          if ← accept .value then partUnless false false [.comma, .flowMappingEnd] n
          else pure .empty
        pure (key, value)
      else do
        pure (← part false false n, .empty)
    return entry :: (← flowEntries false n)

end

/-- The handles of tags that need no directive. -/
def usualHandles : List (String × String) :=
  [("!", "!"), ("!!", Tag.standard)]

/-- The directives before a document: at most one version, and each handle once. -/
def directives (versioned : Bool) : Nat → Compose Unit
  | 0 => refuse
  | n + 1 => do
    match ← next? with
    | some (.version major) =>
      if versioned || major != 1 then refuse
      skip
      directives true n
    | some (.tagShorthand handle full) =>
      let s ← get
      if (s.handles.lookup handle).isSome then refuse
      set { s with rest := s.rest.tail, handles := (handle, full) :: s.handles }
      directives versioned n
    | some .otherDirective =>
      skip
      directives versioned n
    | _ => modify fun s => { s with handles := s.handles ++ usualHandles }

/-- Whether a lexeme opens a document with a line of its own. -/
def opensDocument : Lexeme → Bool
  | .version _ => true
  | .tagShorthand _ _ => true
  | .otherDirective => true
  | .documentStart => true
  | _ => false

/-- Moves over lines that end a document. -/
def skipEnds : Nat → Compose Unit
  | 0 => pure ()
  | n + 1 => do
    if ← accept .documentEnd then skipEnds n

/-- The only document of a stream; a stream may also have none. -/
def document : Compose (Option Content) := do
  let bound := 4 * (← get).rest.length + 8
  match ← next? with
  | none => return none
  | some l =>
    let content ←
      if opensDocument l then do
        directives false bound
        expect .documentStart
        match ← next? with
        | none => pure .empty
        | some l =>
          if opensDocument l || l = .documentEnd then pure .empty else part true false bound
      else do
        modify fun s => { s with handles := usualHandles }
        part true false bound
    skipEnds bound
    if (← next?).isSome then refuse
    return some content

end Compose

/-- The content of a document. -/
def content? (s : String) : Except Fault (Option Content) := do
  return (← Compose.document.run { rest := ← lexemes s }).1

end RouteLens.Document
