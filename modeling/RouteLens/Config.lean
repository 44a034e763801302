import RouteLens.Fault
import RouteLens.Value

/-!
# Configuration

A configuration is a dictionary of sections.  What a section leaves out is filled in from the
default configuration, key by key; lists are replaced, not extended.
-/

namespace RouteLens

/-- The entries of a dictionary, in order. -/
abbrev Entries := List (Value × Value)

namespace Entries

/-- Puts every entry of the second dictionary into the first. -/
def overlay (base upper : Entries) : Entries :=
  upper.foldl (fun es e => Value.putEntry e.1 e.2 es) base

/-- Whether a key is present. -/
def hasKey (es : Entries) (key : Value) : Bool :=
  (Value.lookup key es).isSome

/-- A dictionary with text keys. -/
def ofTexts (fields : List (String × Value)) : Entries :=
  fields.map fun f => (.text f.1, f.2)

end Entries

/-- A configuration: its sections, in order. -/
structure Config where
  sections : Entries

namespace Config

/-- A list of texts as a value. -/
def textList (items : List String) : Value :=
  .list (items.map .text)

/-- The build files that mark a project, in the order in which they are tried. -/
def buildFiles : List String :=
  ["pyproject.toml", "setup.cfg", "setup.py"]

/-- What discovery leaves out. -/
def excluded : List String :=
  ["node_modules", "__pycache__", ".git", ".venv", "venv", "dist", "build", ".tox",
    ".pytest_cache", ".mypy_cache", "*.pyc", "*.pyo", "*.egg-info"]

/-- How files of a project are found. -/
def projectDefaults : Entries := .ofTexts
  [("build_config_files", textList buildFiles),
   ("source_dir", .text "src"),
   ("exclude", textList excluded)]

/-- From which score on a method is reported. -/
def complexityDefaults : Entries := .ofTexts
  [("info_threshold", .int 7), ("warn_threshold", .int 10)]

/-- The names of calls that fetch data. -/
def remoteCallDefaults : Entries := .ofTexts
  [("prefixes", textList
      ["find", "get", "fetch", "load", "select", "retrieve", "lookup", "search"]),
   ("contains", textList
      ["query", "count", "findone", "findby", "findandcount", "findbyids", "getmany", "getone",
        "findmany", "findfirst", "findunique", "execute", "scalar", "aget", "afirst", "acount"]),
   ("exact", textList
      ["all", "first", "one", "oneornone", "exists", "values", "valueslist"])]

/-- Which names are exceptions, and which of them come first. -/
def exceptionDefaults : Entries := .ofTexts
  [("modules", textList ["fastapi", "fastapi.exceptions", "starlette.exceptions", "exceptions"]),
   ("suffixes", textList ["Exception", "Error"]),
   ("priority", textList
      ["NotFoundException", "ConflictException", "BadRequestException", "UnauthorizedException",
        "ForbiddenException", "GoneException", "UnprocessableEntityException"])]

/-- The patterns of calls and decorators that open a transaction. -/
def transactionDefaults : Entries := .ofTexts
  [("patterns", textList ["\\.transaction$", "(^|\\.)atomic$", "\\.begin(_nested)?$"])]

/-- How payloads are built. -/
def payloadDefaults : Entries := .ofTexts
  [("max_depth", .int 3),
   ("schema_base_classes", textList ["BaseModel", "Schema", "Struct", "TypedDict"]),
   ("enum_base_classes", textList ["Enum", "IntEnum", "StrEnum", "Flag", "IntFlag"])]

/-- The patterns and names that show use of the authenticated caller. -/
def authDefaults : Entries := .ofTexts
  [("parameters", textList
      ["Depends\\s*\\(\\s*get_current_user", "Depends\\s*\\(\\s*get_current_active_user",
        "Depends\\s*\\(\\s*require_auth", "Depends\\s*\\(\\s*auth_required",
        "Depends\\s*\\(\\s*verify_token", "Depends\\s*\\(\\s*oauth2_scheme",
        "Security\\s*\\(", "CurrentUser", "AuthUser"]),
   ("decorators", textList
      ["login_required", "require_auth", "authenticated", "jwt_required", "permission_required",
        "auth_required", "token_required", "permission_classes"]),
   ("request_param_names", textList ["req", "request", "ctx", "context"])]

/-- The decorators that document an operation. -/
def docDefaults : Entries := .ofTexts
  [("operation", textList ["extend_schema", "swagger_auto_schema", "doc", "api_operation"]),
   ("response", textList
      ["response", "output", "marshal_with", "api_response", "alt_response"]),
   ("tags", textList ["extend_schema_view", "tags", "api_tags"]),
   ("bearer", textList ["api_bearer_auth", "security", "auth_required"])]

/-- The rules of the route report. -/
def feedbackDefaults : Entries := .ofTexts
  [("sensitive_paths", textList
      ["/me", "/my", "/profile", "/account", "/settings", "/admin", "/dashboard", "/billing",
        "/orders", "/payments", "/users/me", "/private"]),
   ("primitive_types", textList
      ["", "str", "int", "float", "bool", "bytes", "list", "dict", "object", "Any", "None",
        "Request"]),
   ("body_methods", textList ["POST", "PUT", "PATCH"])]

/-- How long a result is kept, in seconds. -/
def cacheDefaults : Entries := .ofTexts
  [("result_ttl", .float (.ofRatio false 15 1))]

/-- The configuration that holds where none is given. -/
def default : Config where
  sections := .ofTexts
    [("project", .dict projectDefaults),
     ("complexity", .dict complexityDefaults),
     ("remote_calls", .dict remoteCallDefaults),
     ("exceptions", .dict exceptionDefaults),
     ("transactions", .dict transactionDefaults),
     ("payload", .dict payloadDefaults),
     ("auth", .dict authDefaults),
     ("openapi", .dict docDefaults),
     ("feedback", .dict feedbackDefaults),
     ("cache", .dict cacheDefaults)]

/-- A section, if the configuration has it. -/
def section? (c : Config) (name : String) : Option Value :=
  Value.get? c.sections name

/-- Puts one entry over a configuration: a dictionary is laid over a section of that name, anything
else takes its place. -/
def putSection (es : Entries) (key value : Value) : Entries :=
  match value, Value.lookup key es with
  | .dict upper, some (.dict base) => Value.putEntry key (.dict (Entries.overlay base upper)) es
  | _, _ => Value.putEntry key value es

/-- Fills in the sections of a partial configuration from the default one. -/
def merge (user : Entries) : Config where
  sections := user.foldl (fun es e => putSection es e.1 e.2) default.sections

/-- A configuration from a document.  An empty document leaves everything at its default, and a
document that is no dictionary has no sections. -/
def ofDocument (v : Value) : Except Fault Config :=
  match v with
  | .dict es => .ok (merge es)
  | v => if v.truthy then .error .noSuchPart else .ok (merge [])

/-- The configuration that an engine works with: the default one takes the place of an empty one. -/
def orDefault (c : Config) : Config :=
  if c.sections.isEmpty then default else c

end Config

end RouteLens
