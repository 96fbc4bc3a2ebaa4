import SecScan.Syntax.Constant

/-! What surrounds the code of a project: its environment file, its settings, its container file,
its project file, and the directories it imports from. -/
namespace SecScan.Project

open Text

structure Context where
  env : List (String × String) := []
  settings : Fields := []
  docker : Option String := none
  pyproject : Value := .obj []
  paths : List String := []

def environmentOf (lines : List String) : List (String × String) :=
  lines.foldl (fun env line =>
    let s := strip line
    if hasPrefix s "#" then env
    else match cut? s "=" with
      | some (k, v) => putField (strip k) (strip v) env
      | none => env) []

def settingsOf (m : Syntax.Module) : Fields :=
  m.body.foldl (fun settings s => match s with
    | .assign _ targets value _ => match Syntax.constantOf value with
      | .ok v => targets.foldl (fun settings t => match t with
        | .name _ n _ => putField n v settings
        | _ => settings) settings
      | .error _ => settings
    | _ => settings) []

/-- The directories listed in a variable; where there is no colon, semicolons divide them. -/
def listedPaths (s : String) : List String :=
  let parts := match split s ":" with
    | [one] => if holds one ";" then split one ";" else [one]
    | l => l
  (parts.map strip).filter (· != "")

/-- The directories to import from, below the root unless absolute, each once. -/
def importPaths (root : String) (env : List (String × String)) (settings : Fields) : List String :=
  let fromEnv := ((env.lookup "PYTHONPATH").map listedPaths).getD []
  let fromSettings := match settings.lookup "PYTHONPATH" with
    | some (.list l) => l.map (·.display)
    | _ => []
  ((fromEnv ++ fromSettings).map (Path.absolute root)).eraseDups

structure Readers where
  module : String → Try Syntax.Module
  toml : Files.Content → Try Value

def Context.load (r : Readers) (d : Files.Disk) (root : String) : Context :=
  let file (name : String) := d.content (Path.join root name)
  let env := environmentOf (((file ".env").toOption.map (·.linesSoFar.1)).getD [])
  let settings := match file "settings.py" >>= (·.read) >>= r.module with
    | .ok m => settingsOf m
    | .error _ => []
  { env, settings, docker := (file "Dockerfile" >>= (·.read)).toOption
    pyproject := (file "pyproject.toml" >>= r.toml).toOption.getD (.obj [])
    paths := importPaths root env settings }

def Context.get? (c : Context) (k : String) : Option Value := ((c.env.lookup k).map .text).or (c.settings.lookup k)

end SecScan.Project
