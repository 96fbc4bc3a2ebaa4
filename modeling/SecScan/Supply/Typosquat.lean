import SecScan.Data

/-! Package names that are a slip of the pen away from popular ones. -/
namespace SecScan.Supply

/-! The edit distance of two texts, or other sequences, computed row by row. -/

variable {α : Type} [BEq α]

/-- The rest of a row, given the row above from the place to the left on and the value to the left. -/
def fillRow (c : α) : List α → List Nat → Nat → List Nat
  | d :: ds, diagonal :: above :: rest, left =>
    let v := min (min (above + 1) (left + 1)) (diagonal + if c == d then 0 else 1)
    v :: fillRow c ds (above :: rest) v
  | _, _, _ => []

def nextRow (t : List α) (row : List Nat) (c : α) : List Nat :=
  let first := row.headD 0 + 1
  first :: fillRow c t row first

/-- The last entry of the last row. -/
def tableEnd (s t : List α) : Nat := (s.foldl (nextRow t) (List.range (t.length + 1))).getLastD 0

/-- The least number of insertions, deletions and substitutions between two sequences. The rows are as long as
the shorter one. -/
def distance (s t : List α) : Nat :=
  if s.length < t.length then (if s.isEmpty then t.length else tableEnd t s)
  else if t.isEmpty then s.length
  else tableEnd s t

end SecScan.Supply

namespace SecScan.Supply

def popularPackages : List String :=
  ["boto3", "botocore", "urllib3", "requests", "six", "python-dateutil", "setuptools", "certifi",
    "pip", "wheel", "idna", "s3transfer", "typing-extensions", "charset-normalizer", "rsa", "awscli",
    "pyyaml", "numpy", "pandas", "jmespath", "colorama", "packaging", "zipp", "google-api-core",
    "fsspec", "click", "importlib-metadata", "markupsafe", "pyasn1", "jinja2", "protobuf", "pytz",
    "tomli", "attrs", "platformdirs", "more-itertools", "flask", "django", "fastapi", "pytest",
    "scikit-learn", "scipy", "tensorflow", "torch", "pydantic", "sqlalchemy", "aiohttp", "pillow",
    "matplotlib", "beautifulsoup4"]

structure Scanner where
  popular : List String := popularPackages
  threshold : Int := 2

/-- Without names of its own a scanner takes the known popular ones. -/
def Scanner.of (popular : List String) (threshold : Int) : Scanner :=
  { popular := if popular.isEmpty then popularPackages else popular.eraseDups, threshold }

/-- Names whose lengths differ by more than the threshold cannot be near. -/
def Scanner.isNear (s : Scanner) (name popular : String) : Bool :=
  !(s.threshold < ((name.length : Int) - popular.length).natAbs) &&
    let d := distance name.toList popular.toList
    0 < d && (d : Int) ≤ s.threshold

def Scanner.candidates (s : Scanner) (package : String) : List String :=
  let name := Text.lower package
  if s.popular.contains name then [] else s.popular.filter (s.isNear name)

def isNameChar (c : Char) : Bool := Text.Pattern.asciiAlphanumeric c || c == '_' || c == '-' || c == '.'

def requiredPackage? (line : String) : Option String :=
  let line := Text.strip line
  if line == "" || Text.hasPrefix line "#" then none
  else
    match line.toList.takeWhile isNameChar with
    | [] => none
    | n => some (Text.lower (String.ofList n))

def requiredPackages (content : String) : List String := (Text.lines content).filterMap requiredPackage?

/-- More than the length of any text. -/
def unbounded : Int := Nat.pow 2 64

def boundOf? (v : Value) : Option Int :=
  match Number.ofValue? v with
  | some (.whole n) => some n
  | some (.real x) =>
    if x.isNaN then some (-1)
    else if x.isInf then some (if x < 0.0 then -1 else unbounded)
    else
      let n := Decimal.truncate x
      some (if Decimal.compareInt n x == some .gt then n - 1 else n)
  | none => none

/-- What a scanner is asked to go by. Names and bounds that are of no use are found out only when a
package is compared with them. -/
structure Criteria where
  popular : List Value
  threshold : Value := .int 2

namespace Criteria

def ofValue (popular : Option Value) (threshold : Value) : Try Criteria := do
  let usual := popularPackages.map Value.text
  match popular with
  | none => return ⟨usual, threshold⟩
  | some v =>
    let names ← v.each
    names.forM (·.requireFixed)
    return ⟨if names.isEmpty then usual else names, threshold⟩

def candidates (c : Criteria) (package : Value) : Try (List String) := do
  let name ← package.asText "lower"
  if c.popular.any fun p => p.text? == some (Text.lower name) then return []
  match c.popular.mapM Value.text?, boundOf? c.threshold with
  | some names, some t => return ((Scanner.of names t).candidates name).mergeSort (· ≤ ·)
  | _, _ => throw .wrongKind

def scan (c : Criteria) (content : String) : Try (List Value) := do
  let found ← (requiredPackages content).mapM fun p => do return (p, ← c.candidates (.text p))
  return (found.filter (!·.2.isEmpty)).map fun (p, l) =>
    .obj [("package", .text p), ("candidates", .texts l), ("risk", .text "HIGH"),
      ("reason", .text ("Potential typosquatting of " ++ String.intercalate ", " l))]

end Criteria

def distanceOf (a b : Value) : Try Nat := do
  return @distance Value ⟨Value.same⟩ (← a.each) (← b.each)

end SecScan.Supply
