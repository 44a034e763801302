import RouteLens.Number.Reading
import RouteLens.Regex.Patterns
import RouteLens.Text.Quote
import RouteLens.Text.Search

/-!
# Arguments

How the words of a command line are sorted into options, their values and the words that stand for
themselves.  A long option may be cut short as long as only one fits, a value may follow an equals
sign, short options may stand together, and after `--` every word stands for itself.
-/

namespace RouteLens

variable {edition : Nat} [CharacterNames edition]

/-- What an option does. -/
inductive OptionKind where
  | flag
  | text
  | integer
  | choice (allowed : List String)
  | help
  | version

/-- An option: its names, and what it does. -/
structure OptionRule where
  names : List String
  kind : OptionKind

namespace OptionRule

/-- The name under which the value of an option is kept. -/
def key (o : OptionRule) : String :=
  o.names.getLastD ""

/-- All names of an option, as messages show them. -/
def label (o : OptionRule) : String :=
  Text.joinWith "/" o.names

/-- Whether an option has a value. -/
def hasValue (o : OptionRule) : Bool :=
  match o.kind with
  | .text => true
  | .integer => true
  | .choice _ => true
  | _ => false

end OptionRule

/-- Which words a command line takes: its options, and either named places or one of some
commands with everything that follows it. -/
structure ArgumentRules where
  program : String
  options : List OptionRule
  places : List String := []
  commands : List String := []

/-- Why the words of a command line lead to no request. -/
inductive Halt where
  | refused (program reason : String)
  | help (program : String)
  | version

/-- What a word is by its form. -/
inductive WordKind where
  | plain
  | divider
  | option (rule : Option OptionRule) (name : String) (value : Option String)

/-- A word with what it is. -/
structure Word where
  text : String
  kind : WordKind

namespace Word

/-- Whether a word is an option. -/
def isOption (w : Word) : Bool :=
  match w.kind with
  | .option _ _ _ => true
  | _ => false

/-- Whether a word divides options from words that stand for themselves. -/
def isDivider (w : Word) : Bool :=
  match w.kind with
  | .divider => true
  | _ => false

/-- Whether a word stands for itself. -/
def isPlain (w : Word) : Bool :=
  match w.kind with
  | .plain => true
  | _ => false

end Word

/-- What a command line gives: values by the key of their option, words by place, the command with
its words, and words that have no place. -/
structure Given where
  values : List (String × String) := []
  placed : List String := []
  command : Option (String × List String) := none
  extras : List String := []

namespace Given

/-- Whether a flag is given. -/
def has (g : Given) (key : String) : Bool :=
  g.values.any (·.1 == key)

/-- All values of an option. -/
def all (g : Given) (key : String) : List String :=
  g.values.filterMap fun v => if v.1 == key then some v.2 else none

/-- The last value of an option. -/
def last? (g : Given) (key : String) : Option String :=
  (g.all key).getLast?

end Given

namespace ArgumentRules

/-- A refusal. -/
def refuse {α : Type} (r : ArgumentRules) (reason : String) : Except Halt α :=
  .error (.refused r.program reason)

/-- A refusal that names an option. -/
def refuseOption {α : Type} (r : ArgumentRules) (o : OptionRule) (reason : String) :
    Except Halt α :=
  r.refuse ("argument " ++ o.label ++ ": " ++ reason)

/-- All names with their options. -/
def names (r : ArgumentRules) : List (String × OptionRule) :=
  r.options.flatMap fun o => o.names.map fun n => (n, o)

/-- Splits a word at its first equals sign. -/
def splitValue (s : String) : String × Option String :=
  let name := s.toList.takeWhile (· != '=')
  match s.toList.drop name.length with
  | [] => (s, none)
  | _ :: value => (String.ofList name, some (String.ofList value))

/-- The options that a word may be short for. -/
def candidates (r : ArgumentRules) (s : String) : List (OptionRule × String × Option String) :=
  if Text.startsWith s "--" then
    let (start, value) := splitValue s
    r.names.filterMap fun n => if Text.startsWith n.1 start then some (n.2, n.1, value) else none
  else
    let short := String.ofList (s.toList.take 2)
    let value := String.ofList (s.toList.drop 2)
    r.names.filterMap fun n =>
      if n.1 == short then some (n.2, n.1, some value)
      else if Text.startsWith n.1 s then some (n.2, n.1, none)
      else none

/-- The form of negative numbers. -/
def negativeNumbers : Patterns :=
  .read {} ["^-\\d+$", "^-\\d*\\.\\d+$"]

/-- What a word is by its form. -/
def kindOf (r : ArgumentRules) (s : String) : Except Halt WordKind :=
  if !Text.startsWith s "-" then .ok .plain
  else
    match r.names.lookup s with
    | some o => .ok (.option (some o) s none)
    | none =>
      if s.length == 1 then .ok .plain
      else
        let (name, value) := splitValue s
        match value, r.names.lookup name with
        | some v, some o => .ok (.option (some o) name (some v))
        | _, _ =>
          match r.candidates s with
          | [(o, name, value)] => .ok (.option (some o) name value)
          | [] =>
            if negativeNumbers.search s || s.contains ' ' then .ok .plain
            else .ok (.option none s none)
          | several =>
            r.refuse ("ambiguous option: " ++ s ++ " could match " ++
              Text.joinWith ", " (several.map fun c => c.2.1))

/-- The words with what they are. -/
def wordsOf (r : ArgumentRules) : List String → Except Halt (List Word)
  | [] => .ok []
  | s :: ss =>
    if s == "--" then .ok (⟨s, .divider⟩ :: ss.map fun s => ⟨s, .plain⟩)
    else do
      let kind ← r.kindOf s
      return ⟨s, kind⟩ :: (← r.wordsOf ss)

/-- A value between quotes, among those that are allowed. -/
def invalidChoice (value : String) (allowed : List String) : String :=
  "invalid choice: " ++ Text.quote value ++ " (choose from " ++
    Text.joinWith ", " (allowed.map Text.quote) ++ ")"

/-- Keeps the value of an option.  A divider as a value stands for nothing. -/
def keep (r : ArgumentRules) (g : Given) (o : OptionRule) (value : String) : Except Halt Given :=
  let kept (v : String) : Given := { g with values := g.values ++ [(o.key, v)] }
  if value == "--" then .ok (kept "")
  else
    match o.kind with
    | .help => .error (.help r.program)
    | .version => .error .version
    | .integer =>
      if (readInteger? value).isSome then .ok (kept value)
      else r.refuseOption o ("invalid int value: " ++ Text.quote value)
    | .choice allowed =>
      if allowed.contains value then .ok (kept value)
      else r.refuseOption o (invalidChoice value allowed)
    | _ => .ok (kept value)

/-- The value that is written together with the name of an option.  Behind a short flag it is the
letters of further short options, the last of which may take the next word. -/
def takeJoined (r : ArgumentRules) (flags : List OptionRule) (o : OptionRule) (name : String) :
    List Char → Except Halt (List OptionRule × OptionRule × Option String)
  | [] =>
    if o.hasValue then .ok (flags, o, some "") else r.refuseOption o "ignored explicit argument ''"
  | c :: rest =>
    let value := String.ofList (c :: rest)
    let short := "-" ++ String.singleton c
    if o.hasValue then .ok (flags, o, some value)
    else
      match Text.startsWith name "--", r.names.lookup short with
      | false, some next =>
        if rest.isEmpty then .ok (flags ++ [o], next, none)
        else takeJoined r (flags ++ [o]) next short rest
      | _, _ => r.refuseOption o ("ignored explicit argument " ++ Text.quote value)

/-- Keeps the values of several flags. -/
def keepFlags (r : ArgumentRules) (g : Given) (flags : List OptionRule) : Except Halt Given :=
  flags.foldlM (fun g o => r.keep g o "") g

/-- Takes an option and its value, and gives the words after it. -/
def takeOption (r : ArgumentRules) (g : Given) (o : OptionRule) (name : String)
    (value : Option String) (rest : List Word) : Except Halt (Given × List Word) := do
  let (flags, o, value) ← match value with
    | none => pure ([], o, none)
    | some v => r.takeJoined [] o name v.toList
  match value, o.hasValue with
  | some v, _ =>
    let g ← r.keepFlags g flags
    return (← r.keep g o v, rest)
  | none, false =>
    let g ← r.keepFlags g flags
    return (← r.keep g o "", rest)
  | none, true =>
    match rest with
    | w :: rest =>
      if w.isPlain then
        let g ← r.keepFlags g flags
        return (← r.keep g o w.text, rest)
      else r.refuseOption o "expected one argument"
    | [] => r.refuseOption o "expected one argument"

/-- Puts words into the places that are still free; a divider next to a word goes with it. -/
def fillPlaces (g : Given) : Nat → List Word → Given × List Word
  | 0, ws => (g, ws)
  | free + 1, ws =>
    match ws.dropWhile Word.isDivider with
    | w :: rest =>
      if w.isPlain then
        fillPlaces { g with placed := g.placed ++ [w.text] } free (rest.dropWhile Word.isDivider)
      else (g, ws)
    | [] => (g, ws)

/-- Takes the words at the front that have a place. -/
def takePlain (r : ArgumentRules) (g : Given) (ws : List Word) : Except Halt (Given × List Word) :=
  if r.commands.isEmpty then .ok (fillPlaces g (r.places.length - g.placed.length) ws)
  else
    match ws, ws.dropWhile Word.isDivider with
    | first :: rest, w :: _ =>
      if g.command.isSome || !w.isPlain then .ok (g, ws)
      else if r.commands.contains first.text then
        .ok ({ g with command := some (first.text, rest.map Word.text) }, [])
      else r.refuse ("argument COMMAND: " ++ invalidChoice first.text r.commands)
    | _, _ => .ok (g, ws)

/-- Sorts words in turns: words up to the next option, then the option. -/
def sort (r : ArgumentRules) (g : Given) : Nat → List Word → Except Halt Given
  | 0, _ => .ok g
  | n + 1, ws => do
    match ws with
    | [] => return g
    | w :: rest =>
      match w.kind with
      | .option none _ _ => r.sort { g with extras := g.extras ++ [w.text] } n rest
      | .option (some o) name value =>
        let (g, rest) ← r.takeOption g o name value rest
        r.sort g n rest
      | _ =>
        let (g, left) ← r.takePlain g ws
        if left.length < ws.length then r.sort g n left
        else
          let unplaced := ws.takeWhile fun w => !w.isOption
          r.sort { g with extras := g.extras ++ unplaced.map Word.text } n
            (ws.drop unplaced.length)

/-- Reads the words of a command line. -/
def read (r : ArgumentRules) (ss : List String) : Except Halt Given := do
  let ws ← r.wordsOf ss
  let g ← r.sort {} (ws.length + 1) ws
  let missing := r.places.drop g.placed.length
  if missing.isEmpty then return g
  else r.refuse ("the following arguments are required: " ++ Text.joinWith ", " missing)

end ArgumentRules

end RouteLens
