import SecScan.Knowledge.Library
import SecScan.Packages.Version

/-! Libraries by name, and their functions by version. -/
namespace SecScan.Knowledge

abbrev Registry := List (String × Library)

namespace Registry

variable (r : Registry)

def add (l : Library) : Try Registry := do
  return putField (Text.lower (← l.name.asText "lower")) l r

def isPassedOver : Fault → Bool
  | .notJson | .longNumber _ | .notRecord | .notText | .invalid _ => true
  | _ => false

/-- Reads the files of a directory in turn. A file that is no JSON or no map is passed over; a library
without a name ends the reading. -/
def load (r : Registry) : List (String × Files.Content) → Try Unit × Registry
  | [] => (.ok (), r)
  | (name, content) :: rest =>
    if !Text.hasSuffix name ".json" then load r rest
    else match content.read >>= Json.read >>= Library.ofValue >>= r.add with
      | .ok r => load r rest
      | .error e => if isPassedOver e then load r rest else (.error e, r)

def releasesOf (l : Library) : Try (List Release) :=
  match l.releases with
  | .known rs => .ok rs
  | .unread (.list []) | .unread (.map []) | .unread (.text "") => .ok []
  | .unread (.list _) | .unread (.map _) | .unread (.text _) => .error .noField
  | .unread _ => .error .wrongKind

variable (name : Value)

def library? : Try (Option Library) := do
  return r.lookup (Text.lower (← name.asText "lower"))

def get? (name version : Value) : Try (Option Release) := do
  match ← r.library? name with
  | none => return none
  | some l => return (← releasesOf l).find? (·.version.same version)

/-- The first of the highest versions; if one of them is none, the last that was entered. -/
def highest (rs : List Release) : Option Release :=
  let versions := rs.map fun x => x.version.text?.bind Packages.Version.parse?
  if versions.all (·.isSome) then
    (rs.zip versions).foldl (fun (best : Option (Release × Option Packages.Version)) x =>
      match best, x.2 with
      | some (_, some b), some v => if b.lt v then some x else best
      | none, _ => some x
      | _, _ => best) none |>.map (·.1)
  else rs.getLast?

def latest? : Try (Option Release) := do
  match ← r.library? name with
  | none => return none
  | some l => match l.releases with
    | .unread (.map (_ :: _)) => throw .noKey
    | .unread (.list vs) => if (vs.getLastD .null).isNull then return none else throw .noField
    | .unread v => if v.truthy then (releasesOf l).map highest else return none
    | .known rs => return highest rs

/-- Whether the latest of releases that were not read says nothing. -/
def endsEmpty : Bool :=
  match r.library? name with
  | .ok (some { releases := .unread (.list vs), .. }) => !(vs.getLastD .null).truthy
  | _ => false

/-- The releases of dependencies: the exact one, or the latest if no version is asked for. -/
def matching (deps : Entries) : Try (List (String × Release)) :=
  deps.foldlM (fun found (name, version) => do
    match ← if version.truthy then r.get? name version
        else if r.endsEmpty name then pure none else r.latest? name with
    | some x => return putField (Text.lower (← name.asText "lower")) x found
    | none => return found) []

def functions (r : Registry) (name version : Value) : Try (List Function) := do
  return ((← r.get? name version).map (·.functions)).getD []

def labelled (label : Label) (name version : Value) : Try (List Function) := do
  return (← r.functions name version).filter (·.label == label)

end Registry

end SecScan.Knowledge
