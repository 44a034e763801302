import RouteLens.Command.Result
import RouteLens.Command.Template
import RouteLens.Config.File

/-!
# Running a command line

A command line is run on a disk: it gives an exit code, what goes to the two output streams, and
the disk as it is afterwards.
-/

namespace RouteLens

variable {edition : Nat} [CharacterNames edition]

/-- Where and when a command line is run. -/
structure Setting where
  directory : Path
  disk : Disk
  clock : Binary64
  time : String

/-- What running a command line leads to. -/
structure Outcome where
  exit : Nat
  stdout : String
  stderr : String
  disk : Disk

namespace Command

/-- The description of the program and a few examples. -/
def help : String :=
  let rule := String.ofList (List.replicate 78 '━')
  Text.joinWith "\n"
    ["usage: specpilot [-h] [-o OUTPUT] [--format \x7bjson,yaml\x7d] [--config FILE] " ++
       "[--init-config]",
     "                 [-v] [--version]",
     "                 COMMAND ...",
     "",
     "Static feedback for layered Python web services",
     "",
     rule,
     "QUICK START",
     rule,
     "  specpilot trace . UsersController create        # Which service does it call?",
     "  specpilot analyze . UsersService create         # Calls, raises, transactions",
     "  specpilot exception . UsersService              # Representative exception",
     "  specpilot sample . CreateUserRequest            # Minimal valid payload",
     "  specpilot feedback . UsersController create --http-method POST --path /users",
     "",
     rule,
     "DISCLAIMER",
     rule,
     "This tool reads source code with the ast module and never runs it. Findings",
     "are heuristics over static structure; always verify them against the code.",
     ""]

/-- The log as it is shown: warnings, and everything else on request. -/
def logText (verbose : Bool) (notes : List Note) : String :=
  String.join ((notes.filter fun n => verbose || n.level = .warning).map Note.line)

/-- The configuration that a command line asks for, if there is such a file. -/
def configOf (w : Setting) (file : Option String) : Except Fault (Except Path Config) :=
  match file with
  | none => .ok (.ok .default)
  | some s =>
    let path := Path.ofText s
    let target := w.directory.join path
    if w.disk.isFile target || w.disk.isFolder target then do
      return .ok (← Config.load w.disk target)
    else .ok (.error path)

/-- Answers a request with a configuration: the result, if its target was found, and the log. -/
def answer (w : Setting) (config : Config) (r : Request) :
    Except Fault (Option Value × List Note) := do
  let s ← Session.start config w.directory w.disk w.clock
  let (result, s) := (r.question.answer (.ofText r.root) w.time).run s
  return (← result, s.notes.reverse)

/-- Puts a result where it is to go. -/
def deliver (w : Setting) (i : Invocation) (text log : String) : Except Fault Outcome :=
  match i.output with
  | none => .ok ⟨0, text ++ "\n", log, w.disk⟩
  | some file => do
    let disk ← w.disk.create (w.directory.join (.ofText file)) text.toUTF8.toList
    let note := if i.verbose then "Output written to: " ++ file ++ "\n" else ""
    return ⟨0, "", log ++ note, disk⟩

/-- Runs a request. -/
def runRequest (w : Setting) (i : Invocation) (r : Request) : Except Fault Outcome := do
  let failed (text : String) : Outcome := ⟨1, "", text, w.disk⟩
  match ← configOf w i.config with
  | .error path => return failed ("Error: Config file '" ++ path.toText ++ "' does not exist\n")
  | .ok config =>
    let loaded := match i.config with
      | some s => if i.verbose then "Loaded config: " ++ (Path.ofText s).toText ++ "\n" else ""
      | none => ""
    let root := Path.ofText r.root
    if !w.disk.isFolder (w.directory.join root) then
      return failed (loaded ++ "Error: Path '" ++ root.toText ++ "' does not exist\n")
    let (result, notes) ← answer w config r
    let log := loaded ++ logText i.verbose notes
    match result with
    | none =>
      return failed (log ++ "Error: could not resolve " ++ r.command ++ " target under " ++
        root.toText ++ "\n")
    | some v => deliver w i (← i.format.show v) log

/-- Runs a command line. -/
def run (w : Setting) (arguments : List String) : Except Fault Outcome :=
  match read arguments with
  | .error (.refused program reason) =>
    .ok ⟨2, "", program ++ ": error: " ++ reason ++ "\n", w.disk⟩
  | .error (.help _) => .ok ⟨0, help, "", w.disk⟩
  | .error .version => .ok ⟨0, version ++ "\n", "", w.disk⟩
  | .ok i =>
    if i.showTemplate then .ok ⟨0, template ++ "\n", "", w.disk⟩
    else
      match i.request with
      | none => .ok ⟨2, "", help, w.disk⟩
      | some r => runRequest w i r

end Command

end RouteLens
