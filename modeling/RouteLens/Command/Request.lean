import RouteLens.Command.Arguments
import RouteLens.Feedback

/-!
# Requests

The commands of the program, their options, and the requests that a command line stands for.
-/

namespace RouteLens

variable {edition : Nat} [CharacterNames edition]

/-- The form in which a result is shown. -/
inductive ResultFormat where
  | json
  | yaml
  deriving DecidableEq

/-- What is asked about a project. -/
inductive Question where
  | trace (className methodName : String) (all : Bool)
  | analyze (className methodName : String)
  | exception (className : String)
  | sample (className : String) (maxDepth : Option Int)
  | sampleHandler (className methodName : String)
  | feedback (route : Route)

/-- A question with the root of the project and the name of its command. -/
structure Request where
  command : String
  root : String
  question : Question

/-- What a command line asks for. -/
structure Invocation where
  output : Option String
  format : ResultFormat
  config : Option String
  showTemplate : Bool
  verbose : Bool
  request : Option Request

namespace Command

/-- The name of the program. -/
def program : String := "specpilot"

/-- The version of the program. -/
def version : String := program ++ " 0.3.0"

/-- The option that every command has. -/
def helpOption : OptionRule :=
  ⟨["-h", "--help"], .help⟩

/-- The commands with the names of their places and their own options. -/
def commands : List (String × List String × List OptionRule) :=
  [("trace", ["CLASS", "METHOD"], [⟨["--all"], .flag⟩]),
   ("analyze", ["CLASS", "METHOD"], []),
   ("exception", ["CLASS"], []),
   ("sample", ["CLASS"], [⟨["--handler"], .text⟩, ⟨["--max-depth"], .integer⟩]),
   ("feedback", ["CONTROLLER", "HANDLER"],
     [⟨["--http-method"], .text⟩, ⟨["--path"], .text⟩, ⟨["--guarded"], .flag⟩,
      ⟨["--public"], .flag⟩, ⟨["--param-type"], .text⟩])]

/-- What the program takes before the command. -/
def mainRules : ArgumentRules where
  program := program
  options :=
    [helpOption, ⟨["-o", "--output"], .text⟩, ⟨["--format"], .choice ["json", "yaml"]⟩,
     ⟨["--config"], .text⟩, ⟨["--init-config"], .flag⟩, ⟨["-v", "--verbose"], .flag⟩,
     ⟨["--version"], .version⟩]
  commands := commands.map Prod.fst

/-- What a command takes. -/
def rulesOf (name : String) : ArgumentRules :=
  let (places, options) := (commands.lookup name).getD ([], [])
  { program := program ++ " " ++ name
    options := helpOption :: options
    places := "root" :: places }

/-- A text that is given and not empty. -/
def nonEmpty? (s : Option String) : Option String :=
  s.filter fun s => !s.isEmpty

/-- The route that a command line describes. -/
def routeOf (g : Given) (controller handler : String) : Route :=
  let types := g.all "--param-type"
  { controller, handler
    httpMethod := g.last? "--http-method"
    path := g.last? "--path"
    hasGuards := g.has "--guarded"
    isPublic := g.has "--public"
    paramTypes := if types.isEmpty then none else some types }

/-- The question of a command, from the words in its places. -/
def questionOf (name : String) (g : Given) : Question :=
  let word (i : Nat) : String := g.placed.getD i ""
  if name == "trace" then .trace (word 1) (word 2) (g.has "--all")
  else if name == "analyze" then .analyze (word 1) (word 2)
  else if name == "exception" then .exception (word 1)
  else if name == "sample" then
    match nonEmpty? (g.last? "--handler") with
    | some m => .sampleHandler (word 1) m
    | none => .sample (word 1) ((g.last? "--max-depth").bind readInteger?)
  else .feedback (routeOf g (word 1) (word 2))

/-- Reads a command line. -/
def read (arguments : List String) : Except Halt Invocation := do
  let g ← mainRules.read arguments
  let (request, extras) ← match g.command with
    | none => pure (none, g.extras)
    | some (name, words) => do
      let own ← (rulesOf name).read words
      let request : Request := ⟨name, own.placed.headD "", questionOf name own⟩
      pure (some request, g.extras ++ own.extras)
  if !extras.isEmpty then
    mainRules.refuse ("unrecognized arguments: " ++ Text.joinWith " " extras)
  else return {
    output := nonEmpty? (g.last? "--output")
    format := if g.last? "--format" = some "yaml" then .yaml else .json
    config := nonEmpty? (g.last? "--config")
    showTemplate := g.has "--init-config"
    verbose := g.has "--verbose"
    request }

end Command

end RouteLens
