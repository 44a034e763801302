import RouteLens.Fault

/-!
# Issues

Findings with a stable code, a severity, a message and sometimes a hint, and their count by
severity.
-/

namespace RouteLens

/-- How serious a finding is. -/
inductive Severity where
  | info
  | warn
  | error
  deriving DecidableEq

namespace Severity

/-- The name of a severity. -/
def name : Severity → String
  | .info => "info"
  | .warn => "warn"
  | .error => "error"

/-- The severity of a name. -/
def ofName (s : String) : Except Fault Severity :=
  match s with
  | "info" => .ok .info
  | "warn" => .ok .warn
  | "error" => .ok .error
  | _ => .error .unknownKey

/-- The severities, the least serious first. -/
def all : List Severity :=
  [.info, .warn, .error]

end Severity

/-- A finding. -/
structure Issue where
  code : String
  severity : Severity
  message : String
  hint : Option String := none
  deriving DecidableEq

/-- How many findings there are of each severity, zero included. -/
def summarize (severities : List Severity) : List (Severity × Nat) :=
  Severity.all.map fun s => (s, severities.count s)

end RouteLens
