import SecScan.Scan.Secrets

/-! Signs that a source was made hard to read. -/
namespace SecScan.Scan

open Text

def binaryExtensions : List String := [".so", ".pyd", ".dll", ".dylib", ".pyc"]

def hasBinaryExtension (path : String) : Bool := binaryExtensions.contains (Text.lower (Path.extension path))

def ratio (a b : Nat) : Float := Float.ofNat a / Float.ofNat b

def isShown (c : Char) : Bool := isPrintable c || c == '\n' || c == '\r' || c == '\t'

def identifiers (s : String) : List String :=
  let p : Pattern := .seq (.one fun c => Pattern.asciiLetter c || c == '_')
    (Pattern.star fun c => Pattern.asciiAlphanumeric c || c == '_')
  (p.findAll s).map fun (i, m) => m.text s i

variable (source : String)

def hasLongLines : Bool :=
  let lines := match Text.lines source with
    | [] => [source]
    | l => l
  let lengths := lines.map String.length
  0.2 < ratio (lengths.countP (300 ≤ ·)) lines.length && 120.0 < ratio (lengths.foldl Nat.add 0) lines.length

def hasLongNames : Bool :=
  let names := identifiers source
  let long := names.countP (30 ≤ ·.length)
  10 ≤ long && 0.25 < ratio long names.length

def entropySample : Nat := 2000

def obfuscationSigns : List String :=
  if source.contains '\x00' then ["null_byte"]
  else if source.length < 200 then []
  else
    let chars := source.toList
    let total := source.length
    let signs : List (String × Bool) :=
      [("non_printable_ratio", 0.02 < ratio (chars.countP (!isShown ·)) total),
        ("long_lines", hasLongLines source),
        ("symbol_density", 0.45 < ratio (chars.countP fun c => !isAlphanumeric c && !isBlank c) total),
        ("long_identifiers", hasLongNames source),
        ("high_entropy", 4.8 < entropy (Text.take entropySample source))]
    (signs.filter (·.2)).map (·.1)

/-- The signs of what may be no text: a short list is not judged, all else has none of the operations. -/
def obfuscationSignsOf (source : Value) : Try (List String) := do
  match source with
  | .text s => return obfuscationSigns s
  | v =>
    if !v.truthy then return []
    if ← v.mentions "\x00" then return ["null_byte"]
    if (← v.size) < 200 then return []
    throw .noField

def isObfuscated (signs : List String) : Bool := signs.contains "null_byte" || 2 ≤ signs.length

end SecScan.Scan
