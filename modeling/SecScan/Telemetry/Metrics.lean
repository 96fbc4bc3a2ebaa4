import SecScan.Data

/-! Counts of tokens, run times and feedback, and their summary. -/
namespace SecScan.Telemetry

open Value

structure TokenCount where
  prompt : Value := .int 0
  completion : Value := .int 0
  total : Value := .int 0
  deriving Inhabited

structure Confusion where
  truePositives : Nat := 0
  falsePositives : Nat := 0
  trueNegatives : Nat := 0
  falseNegatives : Nat := 0

/-- A share, or zero of nothing. -/
def ratio (part whole : Nat) : Float :=
  if 0 < whole then part.toFloat / whole.toFloat else 0.0

namespace Confusion

variable (c : Confusion)

def precision : Float := ratio c.truePositives (c.truePositives + c.falsePositives)

def recallRate : Float := ratio c.truePositives (c.truePositives + c.falseNegatives)

def falsePositiveRate : Float := ratio c.falsePositives (c.falsePositives + c.trueNegatives)

def f1 : Float :=
  let p := c.precision
  let r := c.recallRate
  if p + r > 0.0 then 2.0 * (p * r) / (p + r) else 0.0

def track (name : String) : Confusion :=
  match Text.upper name with
  | "TRUE_POSITIVE" => { c with truePositives := c.truePositives + 1 }
  | "FALSE_POSITIVE" => { c with falsePositives := c.falsePositives + 1 }
  | "TRUE_NEGATIVE" => { c with trueNegatives := c.trueNegatives + 1 }
  | "FALSE_NEGATIVE" => { c with falseNegatives := c.falseNegatives + 1 }
  | _ => c

def value : Value :=
  let rounded (x : Float) : Value := .float (Decimal.roundPlaces x 4)
  .obj [("true_positives", .nat c.truePositives), ("false_positives", .nat c.falsePositives),
    ("true_negatives", .nat c.trueNegatives), ("false_negatives", .nat c.falseNegatives),
    ("precision", rounded c.precision), ("recall", rounded c.recallRate),
    ("f1_score", rounded c.f1), ("fpr", rounded c.falsePositiveRate)]

end Confusion

structure Metrics where
  tokens : List (Value × TokenCount) := []
  latencies : List (Value × List Value) := []
  feedback : Confusion := {}

namespace Metrics

def raiseCounts (prompt completion total : Value) (c : TokenCount) : Try Unit × TokenCount :=
  keeping c (c.prompt.plus prompt) fun x =>
  let c := { c with prompt := x }
  keeping c (c.completion.plus completion) fun x =>
  let c := { c with completion := x }
  keeping c (c.total.plus total) fun x => (.ok (), { c with total := x })

variable (m : Metrics)

def trackTokens (model prompt completion : Value) : Try Unit × Metrics :=
  keeping m (do let t ← prompt.plus completion; model.requireFixed; return t) fun total =>
    let (r, c) := raiseCounts prompt completion total ((under? model m.tokens).getD {})
    (r, { m with tokens := enter model c m.tokens })

def trackLatency (operation ms : Value) : Try Metrics := do
  operation.requireFixed
  let l := (under? operation m.latencies).getD [] ++ [ms]
  return { m with latencies := enter operation l m.latencies }

def trackFeedback (name : String) : Metrics := { m with feedback := m.feedback.track name }

def latencyValue (l : List Value) : Try Value := do
  return .obj [("count", .nat l.length), ("min", ← smallest l), ("max", ← largest l),
    ("avg", ← (← total l).dividedBy (.nat l.length))]

def tokenValue (c : TokenCount) : Value := .obj [("prompt", c.prompt), ("completion", c.completion), ("total", c.total)]

def tokenSummary : Value := .map (m.tokens.map fun (k, c) => (k, tokenValue c))

def summary (m : Metrics) : Try Value := do
  let latency ← m.latencies.mapM fun (k, l) => do return (k, ← latencyValue l)
  return .obj [("tokens", m.tokenSummary), ("latency", .map latency), ("feedback", m.feedback.value)]

/-- The summary as its file holds it. The file is left empty where there is none. -/
def dumped : Try Value := Json.read (((m.summary >>= Json.render (Json.indented 2)).toOption).getD "")

end Metrics

end SecScan.Telemetry
