import RouteLens.Path
import RouteLens.Text.Quote

/-!
# Notes

What the analyses leave in the log: each note has a level and a wording.
-/

namespace RouteLens

/-- How important a note is. -/
inductive NoteLevel where
  | debug
  | info
  | warning
  deriving DecidableEq

/-- The name of a level. -/
def NoteLevel.name : NoteLevel → String
  | .debug => "DEBUG"
  | .info => "INFO"
  | .warning => "WARNING"

/-- Something worth a line in the log. -/
inductive Note where
  | limitsRead (info warn : Int)
  | authRead (params decorators : Nat)
  | authDefault
  | patternRefused (pattern reason : String)
  | fileUnreadable (path : Path) (reason : String)
  | fileMalformed (path : Path)
  | projectLoaded (root buildFile : Path) (files : Nat)
  | sourcesLoaded (root directory : Path) (usable files : Nat)
  | projectMissed (root : Path) (build : String)
  | classFound (name : String) (path : Path)
  | classMissing (name : String) (root : Path)
  | resultReused (className methodName : String)
  | entryClassMissing (className : String)
  | entryMethodMissing (className methodName : String)
  | payloadClassMissing (className : String)
  | loopFetch (name method : String)
  | feedbackOff (route : String)
  | feedbackDone (route : String) (issues : Nat)

namespace Note

/-- The level of a note. -/
def level : Note → NoteLevel
  | .patternRefused .. | .fileUnreadable .. => .warning
  | .feedbackDone .. => .info
  | _ => .debug

/-- The wording of a note. -/
def text : Note → String
  | .limitsRead info warn =>
    "ComplexityAnalyzer configured: info>=" ++ toString info ++ ", warn>=" ++ toString warn
  | .authRead params decorators =>
    "AuthUsageAnalyzer configured: " ++ toString params ++ " param patterns, " ++
      toString decorators ++ " decorator patterns"
  | .authDefault => "AuthUsageAnalyzer using default patterns"
  | .patternRefused pattern reason => "Invalid pattern " ++ Text.quote pattern ++ ": " ++ reason
  | .fileUnreadable path reason => "Could not read " ++ path.toText ++ ": " ++ reason
  | .fileMalformed path =>
    "Syntax error in " ++ path.toText ++ ": invalid syntax (" ++ path.fileName ++
      ", line 1), skipping"
  | .projectLoaded root buildFile files =>
    "Loaded project " ++ root.toText ++ " from " ++ buildFile.fileName ++ " (" ++ toString files ++
      " files, lazy)"
  | .sourcesLoaded root directory usable files =>
    "Loaded project " ++ root.toText ++ " without build config: " ++ toString usable ++ "/" ++
      toString files ++ " files under " ++ directory.toText
  | .projectMissed root build => "Project cache miss for " ++ root.toText ++ " (" ++ build ++ ")"
  | .classFound name path => "Found class " ++ name ++ " in " ++ path.toText
  | .classMissing name root => "Class " ++ name ++ " not found under " ++ root.toText
  | .resultReused className methodName =>
    "Result cache hit for " ++ className ++ "." ++ methodName
  | .entryClassMissing className => "Entry class " ++ className ++ " not found"
  | .entryMethodMissing className methodName =>
    "Entry method " ++ className ++ "." ++ methodName ++ " not found"
  | .payloadClassMissing className => "Payload class " ++ className ++ " not found"
  | .loopFetch name method => "Loop-bound fetch " ++ name ++ " in " ++ method
  | .feedbackOff route => "Feedback disabled for " ++ route
  | .feedbackDone route issues =>
    "Feedback for " ++ route ++ ": " ++ toString issues ++ " issue(s)"

/-- A note as a line of the log. -/
def line (n : Note) : String :=
  n.level.name ++ ": " ++ n.text ++ "\n"

end Note

end RouteLens
