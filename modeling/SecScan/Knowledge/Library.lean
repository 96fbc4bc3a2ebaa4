import SecScan.Data

/-! What is known of the functions of a library: which of them bring in foreign data, which are
dangerous to give it to, and which make it harmless. -/
namespace SecScan.Knowledge

inductive Label where
  | source
  | sink
  | sanitizer
  | none
  deriving DecidableEq, Repr, Inhabited

def Label.text : Label → String
  | .source => "source"
  | .sink => "sink"
  | .sanitizer => "sanitizer"
  | .none => "none"

def Label.ofText? (s : String) : Option Label := [Label.source, .sink, .sanitizer, .none].find? (·.text == s)

def Label.ofValue? (v : Value) : Option Label := v.text?.bind Label.ofText?

structure Parameter where
  name : Value
  index : Value := .int (-1)
  tags : Value := .list []
  description : Value := .null

def Parameter.value (p : Parameter) : Value :=
  .obj [("name", p.name), ("index", p.index), ("tags", p.tags), ("description", p.description)]

structure Function where
  name : Value
  label : Label := .none
  parameters : Value := .list []
  returnsTainted : Value := .bool false
  description : Value := .null
  cwe : Value := .null

def Function.value (f : Function) : Value :=
  .obj [("name", f.name), ("label", .text f.label.text), ("parameters", f.parameters),
    ("returns_tainted", f.returnsTainted), ("description", f.description), ("cwe_id", f.cwe)]

structure Release where
  version : Value
  functions : List Function := []
  date : Value := .null
  deprecated : Value := .bool false

def Release.value (r : Release) : Value :=
  .obj [("version", r.version), ("functions", .list (r.functions.map (·.value))),
    ("release_date", r.date), ("deprecated", r.deprecated)]

inductive Releases where
  | known (l : List Release)
  | unread (v : Value)

structure Library where
  name : Value
  ecosystem : Value := .null
  releases : Releases := .known []
  description : Value := .null
  homepage : Value := .null
  repository : Value := .null

namespace Library

def value (l : Library) : Value :=
  .obj [("name", l.name), ("ecosystem", l.ecosystem), ("versions", match l.releases with
      | .known rs => .list (rs.map (·.value))
      | .unread v => v),
    ("description", l.description), ("homepage", l.homepage), ("repository", l.repository)]

def schema : Schema :=
  { fields := [("name", .null), ("ecosystem", .null), ("versions", .list []), ("description", .null),
      ("homepage", .null), ("repository", .null)] }

def ofValue (v : Value) : Try Library := do
  let v ← schema.read .notRecord v
  return { name := v.sub "name", ecosystem := v.sub "ecosystem", releases := .unread (v.sub "versions")
           description := v.sub "description", homepage := v.sub "homepage", repository := v.sub "repository" }

variable (l : Library)

/-- The release that functions are added to: the last one, or a new one for all versions. -/
def current : List Release × Release :=
  match l.releases with
  | .known rs => match rs.getLast? with
    | some r => (rs.dropLast, r)
    | none => ([], { version := .text "*" })
  | .unread _ => ([], { version := .text "*" })

def addRelease (r : Release) : Library :=
  match l.releases with
  | .known rs => { l with releases := .known (rs ++ [r]) }
  | .unread _ => { l with releases := .known [r] }

def addFunction (f : Function) : Library :=
  let (before, r) := l.current
  { l with releases := .known (before ++ [{ r with functions := r.functions ++ [f] }]) }

def taintedParameters (places : List Value) : List Value :=
  places.map fun i => { name := .text ("arg" ++ i.display), index := i, tags := .texts ["tainted"] : Parameter }.value

variable (name description cwe : Value)

def addSink (tainted : List Value) : Library :=
  l.addFunction { name, label := .sink, description, cwe, parameters := .list (taintedParameters tainted) }

def addSource (returnsTainted : Value := .bool true) : Library :=
  l.addFunction { name, label := .source, description, cwe, returnsTainted }

end Library

/-! Libraries that cannot be looked into -/

def builtin (name description : String) : Library :=
  { name := .text name, ecosystem := .text "stdlib", description := .text description
    releases := .known [{ version := .text "3.0+" }] }

def withSinks (cwe description : String) (names : List String) (l : Library) : Library :=
  names.foldl (fun l n => l.addSink (.text n) (.text description) (.text cwe) [.int 0]) l

def withSources (cwe description : String) (names : List String) (l : Library) : Library :=
  names.foldl (fun l n => l.addSource (.text n) (.text description) (.text cwe)) l

def builtinLibraries : List (String × Library) :=
  [("os", builtin "os" "Operating system interface (C-extension)"
      |> withSinks "CWE-78" "Execute command in shell (shell injection risk)" ["os.system"]
      |> withSinks "CWE-78" "Open pipe to command (shell injection risk)" ["os.popen"]
      |> withSinks "CWE-78" "Execute program (command injection risk)" ["os.execl", "os.execlp"]
      |> withSinks "CWE-22" "Delete file (path traversal risk)" ["os.remove", "os.unlink"]
      |> withSources "CWE-15" "Get environment variable (untrusted input)" ["os.getenv", "os.environ.get"]),
   ("subprocess", builtin "subprocess" "Subprocess management (C-extension)"
      |> withSinks "CWE-78" "Execute command (shell injection if shell=True)"
        ["subprocess.call", "subprocess.check_call", "subprocess.check_output", "subprocess.run", "subprocess.Popen"]),
   ("pickle", builtin "pickle" "Python object serialization (C-extension)"
      |> withSinks "CWE-502" "Deserialize object (arbitrary code execution risk)" ["pickle.loads"]
      |> withSinks "CWE-502" "Deserialize object from file (arbitrary code execution risk)" ["pickle.load"])]

def builtinLibrary? (name : String) : Option Library := builtinLibraries.lookup (Text.lower name)

end SecScan.Knowledge
