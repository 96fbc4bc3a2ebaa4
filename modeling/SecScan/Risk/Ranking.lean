import SecScan.Feedback
import SecScan.Taint.Marks

/-! Scores taint flows by how sensitive their ends are, how long the way between them is and whether
data or only conditions carry the taint. -/
namespace SecScan.Risk

inductive Level where
  | critical | high | medium | low | safe | unknown
  deriving DecidableEq, Repr, Inhabited

def Level.text : Level → String
  | .critical => "CRITICAL"
  | .high => "HIGH"
  | .medium => "MEDIUM"
  | .low => "LOW"
  | .safe => "SAFE"
  | .unknown => "UNKNOWN"

def Level.ofText? (s : String) : Option Level :=
  [Level.critical, .high, .medium, .low, .safe, .unknown].find? (·.text == s)

def levelBounds : List (Float × Level) := [(85.0, .critical), (70.0, .high), (50.0, .medium), (30.0, .low)]

def levelFrom (score : Value) : List (Float × Level) → Try Level
  | [] => .ok .safe
  | (bound, level) :: rest => do if ← score.atLeast (.float bound) then return level else levelFrom score rest

def Level.ofScore (score : Value) : Try Level := levelFrom score levelBounds

structure Signal where
  name : String
  weight : Value
  score : Value
  rationale : String

def Signal.value (s : Signal) : Value :=
  .obj [("name", .text s.name), ("weight", s.weight), ("score", s.score), ("rationale", .text s.rationale)]

structure Score where
  level : Level
  score : Value
  confidence : Float
  vulnerable : Bool
  summary : String

def Score.value (s : Score) : Value :=
  .obj [("risk_level", .text s.level.text), ("risk_score", s.score),
    ("confidence", .float s.confidence), ("is_vulnerable", .bool s.vulnerable),
    ("summary", .text s.summary)]

def flowCheck : String := "TAINT_FLOW"

structure Item where
  risk : Score
  signals : List Signal
  metadata : Value

def Item.value (i : Item) : Value :=
  .obj [("check_id", .text flowCheck), ("path", .null), ("line", .null), ("column", .null),
    ("category", .null), ("severity", .null), ("risk", i.risk.value),
    ("signals", .list (i.signals.map (·.value))), ("metadata", i.metadata)]

structure Ranking where
  items : List Item
  overall : Option Score

def Ranking.value (r : Ranking) : Value :=
  .obj [("version", .text "1.0"), ("items", .list (r.items.map (·.value))),
    ("overall", Value.ofOption (·.value) r.overall)]

abbrev Sensitivity := Fields

def floats (l : List (String × Float)) : Fields := l.map fun (k, x) => (k, .float x)

def sourceSensitivity : Sensitivity := floats [("secret", 1.0), ("password", 1.0), ("token", 0.95), ("key", 0.9),
   ("credential", 0.9), ("private", 0.85), ("ssn", 1.0), ("credit", 1.0),
   ("card", 1.0), ("pii", 0.8)]

def sinkSensitivity : Sensitivity := floats [("exec", 1.0), ("eval", 1.0), ("system", 1.0), ("subprocess", 0.95),
   ("pickle", 0.85), ("yaml.load", 0.85), ("sql", 0.8), ("query", 0.75),
   ("open", 0.6), ("write", 0.6), ("send", 0.6), ("http", 0.6),
   ("request", 0.6), ("print", 0.4), ("sink", 0.4)]

abbrev Weights := Fields

def signalWeights : Weights := floats [("source_sensitivity", 0.35), ("sink_sensitivity", 0.25),
   ("path_length", 0.25), ("implicit_flow", 0.15)]

/-- Weights as shares of their sum; the usual ones if the sum is not positive. -/
def normalize (weights : Weights) : Try Weights := do
  let total ← Value.total (weights.map (·.2))
  if ← total.atMost (.int 0) then return signalWeights
  weights.mapM fun (k, w) => do return (k, ← w.dividedBy total)

structure Ranker where
  sources : Sensitivity := sourceSensitivity
  sinks : Sensitivity := sinkSensitivity
  weights : Weights := signalWeights
  feedback : Option Feedback.Store := none

/-- The way of tainted data as a document describes it: its ends, the steps between them, and whether
only conditions carry the taint. -/
structure Trail where
  source : Value := .null
  sink : Value := .null
  path : Value := .list []
  implicit : Value := .bool false

def Trail.ofFlow (f : Taint.Flow) : Trail := ⟨.text f.source, .text f.sink, .texts f.path, .bool f.implicit⟩

def Trail.length (t : Trail) : Try Nat := if t.path.truthy then t.path.size else .ok 1

def Trail.summary (t : Trail) : String := t.source.display ++ " -> " ++ t.sink.display

/-- The highest sensitivity among the words that a name contains. -/
def sensitivityOf (name : Value) (s : Sensitivity) : Try Value := do
  let name := Text.lower (← name.asText "lower")
  s.foldlM (fun best (word, x) => if Text.holds name word then best.larger x else .ok best) (.float 0.3)

def longestPath : Nat := 7

def pathScore (n : Nat) : Float :=
  if n ≤ 2 then 1.0
  else if longestPath ≤ n then 0.1
  else
    let rest := 1.0 - (n - 2).toFloat / (longestPath - 2).toFloat
    if 0.1 < rest then rest else 0.1

def confidence (n : Nat) (implicit : Bool) : Float :=
  let bonus := 0.05 * n.toFloat
  let bonus := if bonus < 0.25 then bonus else 0.25
  let c := 0.6 + bonus + (if implicit then 0.05 else 0.0)
  if c < 1.0 then c else 1.0

namespace Ranker

variable (r : Ranker)

def weight (name : String) : Try Value :=
  match r.weights.lookup name with
  | some w => .ok w
  | none => .error .noKey

def metadata (t : Trail) (n : Nat) : Value :=
  .obj [("source", t.source), ("sink", t.sink), ("path", t.path), ("path_length", .nat n), ("implicit", t.implicit)]

def isVulnerable (score : Value) : Try Bool := score.atLeast (.float 50.0)

/-- The score that a user's answer sets, with its level and the signal that says so. -/
def said? (i : Item) (said : Feedback.Item) : Try (Value × Level × List Signal) :=
  match said.kind, said.adjustedScore with
  | .text "FALSE_POSITIVE", _ => .ok (.float 0.0, .safe,
      [⟨"feedback_override", .float 1.0, .float 0.0, "Marked as False Positive by user."⟩])
  | .text "ADJUST_RISK", .null => .ok (i.risk.score, i.risk.level, [])
  | .text "ADJUST_RISK", v => do
    let level ← Level.ofScore v
    return (v, level, [⟨"feedback_adjustment", .float 1.0, ← v.dividedBy (.float 100.0),
      "Risk adjusted by user to " ++ v.display ++ "."⟩])
  | _, _ => .ok (i.risk.score, i.risk.level, [])

def override (t : Trail) (i : Item) (said : Feedback.Item) : Try Item := do
  let (score, level, extra) ← said? i said
  return { i with
    signals := i.signals ++ extra
    risk := { i.risk with
      level, score, vulnerable := ← isVulnerable score, summary := t.summary ++ " (Feedback Applied)" } }

def score (t : Trail) : Try Item := do
  let n ← t.length
  let sourceScore ← sensitivityOf t.source r.sources
  let sinkScore ← sensitivityOf t.sink r.sinks
  let implicit := t.implicit.truthy
  let signals : List Signal :=
    [⟨"source_sensitivity", ← r.weight "source_sensitivity", sourceScore,
      "Matched source '" ++ t.source.display ++ "'."⟩,
     ⟨"sink_sensitivity", ← r.weight "sink_sensitivity", sinkScore, "Matched sink '" ++ t.sink.display ++ "'."⟩,
     ⟨"path_length", ← r.weight "path_length", .float (pathScore n), "Path length " ++ toString n ++ "."⟩,
     ⟨"implicit_flow", ← r.weight "implicit_flow", .float (if implicit then 1.0 else 0.0),
      if implicit then "Implicit flow detected." else "Explicit flow."⟩]
  let total ← Value.total (← signals.mapM fun s => s.weight.times s.score)
  let score := Value.float (Decimal.roundPlaces (← (← total.times (.float 100.0)).asReal) 2)
  let metadata := metadata t n
  let item : Item :=
    { signals, metadata
      risk := { level := ← Level.ofScore score, score, confidence := confidence n implicit
                vulnerable := ← isVulnerable score, summary := t.summary } }
  match r.feedback with
  | none => return item
  | some store => match store.get? (← Feedback.signature (.text flowCheck) metadata) with
    | some said => override t item said
    | none => return item

def top : List Item → Try (Option Item)
  | [] => .ok none
  | i :: rest => do
    return some (← rest.foldlM (fun a b => do return if ← b.risk.score.more a.risk.score then b else a) i)

def rankTrails (trails : List Trail) : Try Ranking := do
  let items ← trails.mapM r.score
  return { items
           overall := (← top items).map fun i => { i.risk with summary := "Highest risk taint flow." } }

def rank (flows : List Taint.Flow) : Try Ranking := r.rankTrails (flows.map .ofFlow)

end Ranker

/-! Decides who looks at a finding: a language model at the risky ones, fixed rules at the rest. -/

inductive Target where
  | model | rules
  deriving DecidableEq, Repr

def Target.text : Target → String
  | .model => "LLM"
  | .rules => "RULES"

structure Decision where
  target : Target
  score : Score
  checkId : Option String

def Decision.rationale (d : Decision) : String :=
  match d.target with
  | .model => "High-risk finding; route to LLM."
  | .rules => "Low-risk finding; keep rule-based handling."

def Decision.value (d : Decision) : Value :=
  .obj [("target", .text d.target.text), ("risk_level", .text d.score.level.text),
    ("risk_score", d.score.score), ("confidence", .float d.score.confidence),
    ("check_id", .optText d.checkId), ("rationale", .text d.rationale)]

structure Plan where
  overall : Option Decision
  items : List Decision

def Plan.value (p : Plan) : Value :=
  .obj [("overall", Value.ofOption (·.value) p.overall), ("items", .list (p.items.map (·.value)))]

def modelLevels : List Level := [.critical, .high]

def decide (levels : List Level) (s : Score) (checkId : Option String) : Decision :=
  ⟨if levels.contains s.level then .model else .rules, s, checkId⟩

def route (levels : List Level) (r : Ranking) : Plan :=
  { items := r.items.map fun i => decide levels i.risk (some flowCheck)
    overall := r.overall.map fun s => decide levels s none }

end SecScan.Risk
