import SecScan.Data

/-! A collection of labelled code samples: fixes, false alarms and confirmed weaknesses. -/
namespace SecScan.Training

structure Sample where
  code : Value
  weakness : Value
  vulnerable : Value
  kind : Value
  metadata : Value
  hash : Value
  time : Value

def Sample.fieldNames : List String :=
  ["code", "vuln_type", "is_vulnerable", "example_type", "metadata", "content_hash", "timestamp"]

namespace Sample

def value (s : Sample) : Value :=
  .obj [("code", s.code), ("vuln_type", s.weakness), ("is_vulnerable", s.vulnerable),
    ("example_type", s.kind), ("metadata", s.metadata), ("content_hash", s.hash),
    ("timestamp", s.time)]

def ofValue? (v : Value) : Try Sample :=
  let get (k : String) := v.getD k .null
  if fieldNames.all v.has && v.fields.all (fieldNames.contains ·.1) then
    .ok ⟨get "code", get "vuln_type", get "is_vulnerable", get "example_type", get "metadata",
      get "content_hash", get "timestamp"⟩
  else .error .wrongKind

def exercise (s : Sample) : Try Value := do
  unless s.metadata.isMap do throw .noField
  let v := s.vulnerable.truthy
  let fix := if v then s.metadata.getD "fixed_code" .null else .null
  return .obj [("instruction", .text ("Analyze the following Python code trace for " ++ s.weakness.display ++
        " vulnerabilities. Return logic in JSON.")),
     ("input", .obj [("function_signature", s.code), ("vulnerability_type", s.weakness),
       ("context", .obj [("sanitizers_found", .list [])])]),
     ("output", .obj [("is_vulnerable", s.vulnerable), ("confidence_score", .float 1.0),
       ("risk_level", .text (if v then "CRITICAL" else "SAFE")),
       ("analysis_summary", s.metadata.getD "reasoning" (.text ("Code is " ++ if v then "vulnerable" else "safe"))),
       ("fix_suggestion", fix), ("secure_code_snippet", fix),
       ("constraint_check", .obj [("syntax_valid", .bool true), ("logic_sound", .bool true)])])]

end Sample

structure Collection where
  samples : List Sample := []
  hashes : List Value := []

namespace Collection

variable (c : Collection)

def isKnown (h : Value) : Bool := c.hashes.any (·.same h)

/-- Looks at a clock that goes on by a second each time; gives the moment and the clock after it. -/
abbrev Watch := Float → String × Float

variable (w : Watch) (t : Float)

def add (code weakness : Value) (vulnerable : Bool)
    (kind : String) (metadata : Fields) : Try Unit × Collection × Float :=
  match code with
  | .text s =>
    let h := Value.text (Digest.sha256 s)
    if c.isKnown h then (.ok (), c, t)
    else
      let (moment, t) := w t
      let x : Sample := ⟨code, weakness, .bool vulnerable, .text kind, .obj metadata, h, .text moment⟩
      (.ok (), { samples := c.samples ++ [x], hashes := c.hashes ++ [h] }, t)
  | _ => (.error .noField, c, t)

def addFix (before after weakness source : Value) : Try Unit × Collection × Float :=
  match c.add w t before weakness true "fix"
      [("source", source), ("fix_available", .bool true), ("fixed_code", after)] with
  | (.ok (), c, t) => c.add w t after weakness false "fix"
      [("source", source), ("is_patch", .bool true), ("original_code", before)]
  | failed => failed

def addFalsePositive (code weakness reason reviewer : Value) : Try Unit × Collection × Float :=
  let (moment, t) := w t
  c.add w t code weakness false "false_positive"
    [("reason", reason), ("triaged_by", reviewer), ("triage_timestamp", .text moment)]

def addPositive (code weakness reasoning source : Value) : Try Unit × Collection × Float :=
  c.add w t code weakness true "positive" [("reasoning", reasoning), ("source", source)]

/-- The samples of a weakness and a kind, the latest first; what is not given is not asked for. -/
def select (weakness kind limit : Value) : Try (List Sample) := do
  let l := c.samples.filter fun s =>
    (!weakness.truthy || s.weakness.same weakness) && (!kind.truthy || s.kind.same kind)
  let l ← Value.sortOn (·.time) l true
  if limit.truthy then return Value.takeTo (← limit.cutPlace) l else return l

def value (c : Collection) : Value := .obj [("version", .text "1.0"), ("examples", .list (c.samples.map (·.value)))]

def text : Try String := Json.render { Json.indented 2 with ascii := false } c.value

def readSamples (c : Collection) : List Value → Try Unit × Collection
  | [] => (.ok (), c)
  | v :: rest => keeping c (Sample.ofValue? v) fun s =>
      let c := { c with samples := c.samples ++ [s] }
      match s.hash with
      | .list _ | .map _ => (.error .wrongKind, c)
      | h => readSamples { c with hashes := if c.isKnown h then c.hashes else c.hashes ++ [h] } rest

/-- Reads a file in place of what is there; up to a sample that is none, all are kept. -/
def load (file : String) : Try Unit × Collection :=
  match Json.read file with
  | .error e => (.error e, c)
  | .ok (.map l) => match (Value.map l).getD "examples" (.list []) with
    | .list vs => readSamples {} vs
    | .map [] | .text "" => (.ok (), {})
    | _ => (.error .wrongKind, {})
  | .ok v => (.error (v.lacks "get"), {})

def exercises (weakness : Value) : Try (List Value) := do
  (← c.select weakness .null .null).mapM (·.exercise)

end Collection

end SecScan.Training
