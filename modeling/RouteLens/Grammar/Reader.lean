import RouteLens.Token

/-!
# Reading from a list of tokens

A reader takes tokens from the front of a list and may fail.  It also knows where the last token it
took ended, so that a construct can be given the stretch of text it was read from.
-/

namespace RouteLens

/-- What is left to read, and where the last token ended. -/
structure ReadState where
  rest : List Lexeme
  lastStop : Position

/-- A computation that takes tokens and may fail. -/
abbrev Reader (α : Type) := StateT ReadState Option α

namespace Reader

/-- The next token; past the end it is `stop`. -/
def peek : Reader Token := fun s =>
  match s.rest with
  | [] => some (.stop, s)
  | l :: _ => some (l.token, s)

/-- The token after the next one. -/
def peekSecond : Reader Token := fun s =>
  match s.rest with
  | _ :: l :: _ => some (l.token, s)
  | _ => some (.stop, s)

/-- Takes the next token, whatever it is.  Line ends and indentation do not lengthen a construct. -/
def take : Reader Lexeme := fun s =>
  match s.rest with
  | [] => none
  | l :: rest =>
    match l.token with
    | .newline | .indent | .dedent | .stop => some (l, ⟨rest, s.lastStop⟩)
    | _ => some (l, ⟨rest, l.span.stop⟩)

/-- Where the next token starts. -/
def here : Reader Position := fun s =>
  match s.rest with
  | [] => some (s.lastStop, s)
  | l :: _ => some (l.span.start, s)

/-- The stretch from a place to the end of the last token taken. -/
def spanFrom (start : Position) : Reader Span := fun s =>
  some (⟨start, s.lastStop⟩, s)

/-- Whether the next token is the given operator. -/
def atOp (symbol : String) : Reader Bool := do
  match ← peek with
  | .op o => return o == symbol
  | _ => return false

/-- Whether the next token is the given reserved word. -/
def atWord (word : String) : Reader Bool := do
  match ← peek with
  | .keyword w => return w == word
  | _ => return false

/-- Takes the given operator if it is next. -/
def tryOp (symbol : String) : Reader Bool := do
  if ← atOp symbol then
    let _ ← take
    return true
  return false

/-- Takes the given reserved word if it is next. -/
def tryWord (word : String) : Reader Bool := do
  if ← atWord word then
    let _ ← take
    return true
  return false

/-- Takes the given operator or fails. -/
def op (symbol : String) : Reader Unit := do
  guard (← tryOp symbol)

/-- Takes the given reserved word or fails. -/
def word (w : String) : Reader Unit := do
  guard (← tryWord w)

/-- Takes a name or fails. -/
def name : Reader String := do
  match ← take with
  | ⟨.name id, _⟩ => return id
  | _ => failure

/-- Takes the end of a line or fails. -/
def newline : Reader Unit := do
  match ← take with
  | ⟨.newline, _⟩ => return ()
  | _ => failure

/-- Runs a reader; on failure nothing is taken. -/
def attempt {α : Type} (r : Reader α) : Reader (Option α) := fun s =>
  match r s with
  | some (a, s') => some (some a, s')
  | none => some (none, s)

/-- Runs a reader while it gives a result, at most `fuel` times. -/
def collect {α : Type} (r : Reader (Option α)) : Nat → Reader (List α)
  | 0 => failure
  | fuel + 1 => do
    match ← r with
    | none => return []
    | some a => return a :: (← collect r fuel)

/-- Items divided by commas.  After a comma the list ends where `more` says that no item can
start.  The second result says whether the list ended in a comma. -/
def commaList {α : Type} (item : Reader α) (more : Token → Bool) :
    Nat → Reader (List α × Bool)
  | 0 => failure
  | fuel + 1 => do
    let first ← item
    if ← tryOp "," then
      if more (← peek) then
        let (rest, trailing) ← commaList item more fuel
        return (first :: rest, trailing)
      return ([first], true)
    return ([first], false)

end Reader

end RouteLens
