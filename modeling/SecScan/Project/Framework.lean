import SecScan.Project.Context
import SecScan.Syntax.Height

/-! Web frameworks: whether a project uses one, and the routes it declares with it. -/
namespace SecScan.Project

open Text

inductive Framework where
  | django
  | fastapi
  | flask
  deriving DecidableEq, Repr, Inhabited

namespace Framework

def name : Framework → String
  | .django => "django"
  | .fastapi => "fastapi"
  | .flask => "flask"

def ofName? (s : String) : Option Framework := [Framework.django, .fastapi, .flask].find? (·.name == s)

def anyNames (word : String) : List Value → Try Bool
  | [] => .ok false
  | .text s :: rest => if holds (lower s) word then .ok true else anyNames word rest
  | _ :: _ => .error .noField

variable (c : Context)

/-- Whether the standard table of a project file names a package with a word in it. -/
def inStandardTable (word : String) : Try Bool :=
  match c.pyproject.get? "project" with
  | none => .ok false
  | some p => do
    anyNames word (← p.eachAt "dependencies")

/-- Whether the Poetry table of a project file names a package in one of its spellings. -/
def inPoetryTable (spellings : List String) : Try Bool :=
  match c.pyproject.get? "tool" with
  | none => .ok false
  | some t => do
    let table ← (← t.field "poetry" (.obj [])).field "dependencies" (.obj [])
    return (← spellings.mapM table.mentions).any id

def isUsed : Framework → Try Bool
  | .django => do
    if ← inStandardTable c "django" then return true
    return (c.settings.lookup "ROOT_URLCONF").isSome
  | .fastapi => do
    if ← inStandardTable c "fastapi" then return true
    inPoetryTable c ["fastapi", "FastAPI"]
  | .flask => do
    if ← inStandardTable c "flask" then return true
    inPoetryTable c ["flask", "Flask"]

def supported (package : String) : List Framework :=
  match package with
  | "src.plugins" => [.django, .flask]
  | "src.plugins.django" => [.django]
  | "src.plugins.fastapi" => [.fastapi]
  | "src.plugins.flask" => [.flask]
  | _ => []

end Framework

/-! Routes -/

structure Route where
  path : String
  method : String
  handler : String
  file : String
  line : Nat
  /-- What says more about the declaration: its name and a word. -/
  detail : String × String

def Route.value (r : Route) : Value :=
  .list [.text r.path, .text r.method, .text r.handler,
    .obj [("source_file", .text r.file), ("line", .nat r.line), (r.detail.1, .text r.detail.2)]]

def textsOf (es : List Syntax.Expr) : List String :=
  es.filterMap fun e => match e with
    | .constant _ (.text s) _ => some s
    | _ => none

def pathArgument (args : List Syntax.Expr) : String :=
  match args with
  | .constant _ (.text s) _ :: _ => s
  | _ => "/"

def methodsArgument (preset : List String) (keywords : List Syntax.Keyword) : List String :=
  keywords.foldl (fun methods k => match k with
    | .mk _ (some "methods") (.list _ es _) => textsOf es
    | _ => methods) preset

def requestMethods : List String := ["get", "post", "put", "delete", "patch", "options", "head", "trace"]

variable (f : Framework)

def presetMethods (decorator : String) : Option (List String) :=
  match f with
  | .flask => if decorator == "route" then some ["GET"] else none
  | .fastapi =>
    if decorator == "api_route" then some ["GET"]
    else if requestMethods.contains decorator then some [upper decorator] else none
  | .django => none

def routeOfDecorator? (file handler : String) (line : Nat) : Syntax.Expr → Option Route
  | .call _ (.attribute _ _ name _) args keywords =>
    (presetMethods f name).map fun preset =>
      { path := pathArgument args
        method := join "," ((methodsArgument preset keywords).mergeSort (· ≤ ·))
        handler, file, line, detail := ("framework", f.name) }
  | _ => none

variable (file : String) (m : Syntax.Module)

def decoratedRoutes : List Route :=
  (Syntax.Node.module m).walk.flatMap fun n => match n with
    | .stmt (.funcDef loc _ name _ _ decorators _ _) => decorators.filterMap (routeOfDecorator? f file name loc.line)
    | _ => []

def handlerName : Syntax.Expr → String
  | .name _ n _ => n
  | .attribute _ e a _ => handlerName e ++ "." ++ a
  | .call _ (.attribute _ e "as_view" _) _ _ => handlerName e ++ ".as_view"
  | .call _ (.name _ "include" _) _ _ => "include(...)"
  | _ => "unknown"

def routeOfPattern? : Syntax.Expr → Option Route
  | .call loc (.name _ f _) (path :: handler :: _) _ =>
    if ["path", "re_path", "url"].contains f then
      some { path := pathArgument [path], method := "ALL", handler := handlerName handler, file
             line := loc.line, detail := ("django_func", f) }
    else none
  | _ => none

def listedRoutes : List Route :=
  m.body.flatMap fun s => match s with
    | .assign _ targets (.list _ items _) _ => targets.flatMap fun t => match t with
      | .name _ "urlpatterns" _ => items.filterMap (routeOfPattern? file)
      | _ => []
    | _ => []

def Framework.looksInto (name : String) : Bool :=
  hasSuffix name ".py" && match f with
    | .django => holds name "urls"
    | _ => true

def Framework.routesOf : List Route :=
  match f with
  | .django => listedRoutes file m
  | _ => decoratedRoutes f file m

def Framework.routes (module : String → Try Syntax.Module) (d : Files.Disk) (root : String) : List Route :=
  (d.below root).flatMap fun (p, c, _) =>
    if f.looksInto (Path.name p) then match c.read >>= module with
      | .ok m => f.routesOf (Path.relative root p) m
      | .error _ => []
    else []

def leRoute (a b : Route) : Bool :=
  if a.file != b.file then a.file < b.file
  else if a.line != b.line then a.line < b.line
  else if a.path != b.path then a.path < b.path
  else a.method ≤ b.method

def sortedRoutes (l : List Route) : List Route := l.mergeSort leRoute

/-! Settings that should not go into production. -/

structure Issue where
  key : String
  severity : String
  message : String
  remediation : String

def Issue.value (i : Issue) : Value :=
  .obj [("key", .text i.key), ("severity", .text i.severity), ("message", .text i.message),
    ("remediation", .text i.remediation)]

namespace Context

variable (c : Context)

def isDebugging : Bool :=
  match c.get? "DEBUG" with
  | some (.bool b) => b
  | some (.text s) => ["true", "1", "yes", "on"].contains (lower s)
  | _ => false

def admitsAllOrigins : Bool :=
  (match c.get? "CORS_ALLOW_ALL_ORIGINS" with
    | some (.bool b) => b
    | some (.text s) => lower s == "true"
    | _ => false)
  || match c.get? "CORS_ALLOWED_ORIGINS" with
    | some (.text s) => s == "*"
    | some (.list l) => l.any fun v => v.text? == some "*"
    | _ => false

def secretLength : Nat := 32

def secretIssue? : Option Issue :=
  match (c.get? "SECRET_KEY").filter (·.truthy) with
  | none => some ⟨"SECRET_KEY", "critical", "SECRET_KEY is missing.",
      "Define a strong SECRET_KEY in .env or settings.py."⟩
  | some v => if v.display.length < secretLength then
      some ⟨"SECRET_KEY", "critical", "Weak SECRET_KEY detected.",
        "Use a cryptographically strong random string (at least 32 chars)."⟩ else none

def issues : List Issue :=
  (if c.isDebugging then
    [⟨"DEBUG", "high", "DEBUG mode is enabled in production configuration.",
      "Set DEBUG=False in settings.py or .env for production environments."⟩] else [])
  ++ c.secretIssue?.toList
  ++ (if c.admitsAllOrigins then
    [⟨"CORS", "high", "CORS configuration allows all origins ('*').",
      "Restrict CORS_ALLOWED_ORIGINS to specific trusted domains."⟩] else [])

def value : Value :=
  .obj [("env", .obj (c.env.map fun (k, v) => (k, .text v))), ("settings", .obj c.settings),
    ("docker", .optText c.docker), ("pyproject", c.pyproject), ("paths", .texts c.paths),
    ("issues", .list (c.issues.map (·.value)))]

end Context

end SecScan.Project
