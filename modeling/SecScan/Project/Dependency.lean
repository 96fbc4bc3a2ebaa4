import SecScan.Data

/-! The packages that a project depends on, as its lock files, its requirement files and its
project file name them. -/
namespace SecScan.Project

open Text

structure Dependency where
  name : String
  version : Value := .null
  specifier : Option String := none
  extras : Option (List String) := none
  source : String

def Dependency.value (d : Dependency) : Value :=
  .obj [("name", .text d.name), ("version", d.version), ("specifier", .optText d.specifier),
    ("extras", .ofOption .texts d.extras), ("source", .text d.source)]

def Dependency.key (d : Dependency) : String := lower d.name

/-! Versions with an operator -/

def versionOperators : List String := ["===", "~=", "!=", "==", ">=", "<=", ">", "<"]

def splitAtOperator (spec : String) : List String → Option String × Option String
  | [] => (none, none)
  | op :: rest => match cut? spec op with
    | some (_, v) => if (strip v).isEmpty then splitAtOperator spec rest
      else (some (strip v), some op)
    | none => splitAtOperator spec rest

/-- The version and the operator of a condition. A bare version means that very version. -/
def splitCondition (condition : String) : Option String × Option String :=
  let spec := strip condition
  match spec.toList with
  | '^' :: v => (some (String.ofList v), some "^")
  | '~' :: v => (some (String.ofList v), some "~")
  | c :: _ =>
    if isDigit c && !(["<", ">", "=", "!", "~"].any (holds spec ·)) then (some spec, some "==")
    else splitAtOperator spec versionOperators
  | [] => splitAtOperator spec versionOperators

/-! Requirements -/

open Text.Pattern in
/-- A name, names of extras in brackets, an operator and a version; all but the name may be left
out. -/
def requirementPattern : Text.Pattern :=
  seqs [.group 1 (plus fun c => asciiAlphanumeric c || among "_-" c),
    opt (seqs [lit "[", .group 2 (plus (noneOf "]")), lit "]"]),
    star isBlank, opt (.group 3 (plus (among "<>=!~"))), star isBlank,
    opt (.group 4 (seqs [plus fun c => asciiDigit c || c == '.', star fun c => asciiAlphanumeric c || among ".-" c])),
    .textTail]

def requirement? (source s : String) : Option Dependency := do
  let m ← requirementPattern.matchAt s.toList.toArray 0
  let group (n : Nat) := Text.Pattern.groupText? s m n
  return { name := (group 1).getD "", version := .optText (group 4), specifier := group 3
           extras := (group 2).map fun e => (split e ",").map strip, source }

/-- The requirement of a line, without its comment. Of several conditions only the first counts,
unless there are brackets. -/
def requirementOfLine? (line : String) : Option Dependency :=
  let s := strip line
  if s.isEmpty || hasPrefix s "#" then none
  else
    let s := strip ((split s "#").headD "")
    if holds s "," && !Text.holds s "[" then
      requirement? "pip" (strip ((split s ",").headD ""))
    else requirement? "pip" s

/-! Entries of a file are read one after the other; where one cannot be read the reading ends, and
those before it count. -/

def readSoFar : List (Try (List Dependency)) → List Dependency
  | [] => []
  | .ok l :: rest => l ++ readSoFar rest
  | .error _ :: _ => []

abbrev Steps := List (Try (List Dependency))

variable (v : Value)

def each (f : Value → Try (List Dependency)) : Steps :=
  match v.each with
  | .ok l => l.map f
  | .error e => [.error e]

def eachEntry (f : String → Value → Steps) : Steps :=
  match v with
  | .map es => es.flatMap fun (k, x) => f (k.text?.getD "") x
  | _ => [.error .noField]

/-- What stands under a key, if the document mentions it. -/
def under (k : String) (f : Value → Steps) : Steps :=
  match v.mentioned? k with
  | .error e => [.error e]
  | .ok none => []
  | .ok (some x) => f x

def lockedPackage (p : Value) : Try (List Dependency) :=
  if !p.isMap then .error .noField
  else
    let name := p.sub "name"
    let version := p.sub "version"
    if name.truthy && version.truthy then
      match name with
      | .text name => .ok [{ name, version, specifier := some "==", source := "poetry-lock" }]
      | _ => .error .noField
    else .ok []

variable (doc : Value)

def poetryLock : Steps := under doc "package" (each · lockedPackage)

def stripEquals (s : String) : String := String.ofList (s.toList.dropWhile (· == '='))

def pinnedPackage (name : String) (spec : Value) : Try (List Dependency) :=
  match spec with
  | .map _ => match spec.getD "version" (.text "") with
    | .text s =>
      let version := stripEquals s
      .ok (if version.isEmpty then [] else
        [{ name, version := .text version, specifier := some "==", source := "pipfile-lock" }])
    | _ => .error .noField
  | _ => .error .noField

def pipfileLock : Steps :=
  let table (v : Value) := eachEntry v fun name spec => [pinnedPackage name spec]
  under doc "default" table ++ under doc "develop" table

def poetryPackage (name : String) (condition : Value) : Try (List Dependency) :=
  match condition with
  | .text s =>
    let (version, specifier) := splitCondition s
    .ok [{ name, version := .optText version, specifier, source := "poetry" }]
  | _ => .error .noField

def poetryTables (tool : Value) : Steps :=
  under tool "dependencies" (eachEntry · fun name spec =>
    if name == "python" then []
    else match spec with
      | .text _ => [poetryPackage name spec]
      | .map _ => ((spec.get? "version").map (poetryPackage name)).toList
      | _ => [])
  ++ under tool "dev-dependencies" (eachEntry · fun name spec =>
    if spec.isText then [poetryPackage name spec] else [])

def listedRequirement : Try (List Dependency) :=
  match v with
  | .text s => .ok (requirement? "pep621" (strip s)).toList
  | _ => .error .noField

def standardTables (project : Value) : Steps :=
  under project "dependencies" (each · listedRequirement)
  ++ under project "optional-dependencies" (eachEntry · fun _ l => each l listedRequirement)

def poetryPart : Steps := under doc "tool" (under · "poetry" poetryTables)

def standardPart : Steps := under doc "project" standardTables

def projectFile : Steps := poetryPart doc ++ standardPart doc

/-! All files together -/

abbrev Found := List (String × Dependency)

/-- What is known already stays unless it is overwritten. -/
def Found.add (overwrite : Bool) (f : Found) (d : Dependency) : Found :=
  if overwrite || (f.lookup d.key).isNone then putField d.key d f else f

/-- The texts of the files that name dependencies, where there are such files, and a reader of
TOML. -/
structure Manifests where
  toml : Files.Content → Try Value
  poetryLock : Option Files.Content := none
  pipfileLock : Option Files.Content := none
  requirements : Option Files.Content := none
  devRequirements : Option Files.Content := none
  project : Option Files.Content := none

namespace Manifests

variable (m : Manifests)

def entriesOf (read : Files.Content → Try Value) (steps : Value → Steps) (c : Option Files.Content) : List Dependency :=
  match c.map read with
  | some (.ok v) => readSoFar (steps v)
  | _ => []

def poetryEntries : List Dependency := entriesOf m.toml Project.poetryLock m.poetryLock

def pipfileEntries : List Dependency := entriesOf (fun c => c.read >>= Json.read) Project.pipfileLock m.pipfileLock

def requirementEntries : Option Files.Content → List Dependency
  | some c => c.linesSoFar.1.filterMap requirementOfLine?
  | none => []

def projectEntries : List Dependency := entriesOf m.toml projectFile m.project

/-- Lock files come first, and the last entry counts there; then requirement files, then the project file. -/
def found : Found :=
  let locked := (m.poetryEntries ++ m.pipfileEntries).foldl (Found.add true) []
  (requirementEntries m.requirements ++ requirementEntries m.devRequirements ++ m.projectEntries).foldl
    (Found.add false) locked

end Manifests

def Manifests.ofDisk (toml : Files.Content → Try Value) (d : Files.Disk) (root : String) : Manifests :=
  let file (name : String) := (d.content (Path.join root name)).toOption
  { toml, poetryLock := file "poetry.lock", pipfileLock := file "Pipfile.lock"
    requirements := file "requirements.txt", devRequirements := file "requirements-dev.txt"
    project := file "pyproject.toml" }

end SecScan.Project
