import SecScan.Data

/-! Limits for tokens, run times and quality, and the alerts that passing them raises. -/
namespace SecScan.Telemetry

open Value

inductive AlertLevel where
  | info
  | warning
  | critical
  deriving DecidableEq, Repr, Inhabited

def AlertLevel.text : AlertLevel → String
  | .info => "info"
  | .warning => "warning"
  | .critical => "critical"

structure Alert where
  level : AlertLevel
  category : String
  metric : String
  value : Value
  threshold : Value
  message : String

abbrev Limits := Fields

def tokenLimits : Limits :=
  [("max_tokens_per_request", .int 8000), ("warning_tokens_per_request", .int 6000),
   ("max_tokens_per_scan", .int 100000), ("warning_tokens_per_scan", .int 75000),
   ("max_cost_per_scan_usd", .float 5.0), ("warning_cost_per_scan_usd", .float 3.0)]

def latencyLimits : Limits :=
  [("max_parse_latency_ms", .int 5000), ("warning_parse_latency_ms", .int 3000),
   ("max_cfg_build_latency_ms", .int 10000), ("warning_cfg_build_latency_ms", .int 7000),
   ("max_llm_call_latency_ms", .int 30000), ("warning_llm_call_latency_ms", .int 20000),
   ("max_total_scan_latency_ms", .int 120000), ("warning_total_scan_latency_ms", .int 90000)]

def qualityLimits : Limits :=
  [("max_fpr", .float 0.30), ("warning_fpr", .float 0.20), ("min_precision", .float 0.70),
   ("warning_precision", .float 0.80), ("min_recall", .float 0.60), ("warning_recall", .float 0.70)]

structure Thresholds where
  token : Limits := tokenLimits
  latency : Limits := latencyLimits
  quality : Limits := qualityLimits

def Limits.override (l : Limits) (config : Value) : Try Limits :=
  if !config.truthy then .ok l
  else match config with
    | .map _ => config.fields.foldlM (fun l (k, v) =>
        if (l.lookup k).isSome then .ok (putField k v l) else .error .wrongKind) l
    | _ => .error .wrongKind

def Thresholds.ofConfig (config : Value) : Try Thresholds := do
  if !config.truthy then return {}
  unless config.isMap do throw (config.lacks "get")
  return { token := ← tokenLimits.override (config.getD "token" .null)
           latency := ← latencyLimits.override (config.getD "latency" .null)
           quality := ← qualityLimits.override (config.getD "quality" .null) }

def Limits.get (l : Limits) (name : String) : Value := (l.lookup name).getD .null

structure Monitor where
  thresholds : Thresholds := {}
  alerts : List Alert := []

namespace Monitor

structure Wording where
  critical : String
  warning : String
  bound : String := "limit"
  show' : Value → Try String

def word (w : Wording) (level : AlertLevel) (value limit : Value) : Try String := do
  let x ← w.show' value
  let y ← w.show' limit
  return match level with
    | .critical => w.critical ++ ": " ++ x ++ " (" ++ w.bound ++ ": " ++ y ++ ")"
    | _ => w.warning ++ ": " ++ x ++ " (warning threshold: " ++ y ++ ")"

/-- At most one alert for a value: critical if it passes the one limit, else a warning if it passes
the other. -/
def check (passes : Value → Value → Try Bool) (category metric : String) (w : Wording)
    (value critical warning : Value) : Try (List Alert) := do
  let alert (level : AlertLevel) (limit : Value) : Try (List Alert) := do
    return [{ level, category, metric, value, threshold := limit, message := ← word w level value limit }]
  if ← passes value critical then alert .critical critical
  else if ← passes value warning then alert .warning warning
  else return []

def plainly (v : Value) : Try String := .ok v.display

/-- A number as a double that is going to be written with a fixed number of places. -/
def places (code : String) (v : Value) : Try Float :=
  match v, Number.ofValue? v with
  | _, some x => toReal x
  | .text _, _ => .error (.invalid (some ("Unknown format code '" ++ code ++ "' for object of type 'str'")))
  | _, _ => .error .wrongKind

def milliseconds (v : Value) : Try String := do
  return Decimal.fixed 0 (← places "f" v) ++ "ms"

def percent (v : Value) : Try String := do
  return Decimal.fixed 2 ((← places "%" v) * 100.0) ++ "%"

variable (t : Thresholds)

def checkTokens (prompt completion scanTotal : Value) : Try (List Alert) := do
  let request ← check atLeast "token" "tokens_per_request"
      { critical := "LLM request exceeded max tokens"
        warning := "LLM request approaching token limit", show' := plainly }
      (← prompt.plus completion) (t.token.get "max_tokens_per_request")
      (t.token.get "warning_tokens_per_request")
  if ← scanTotal.more (.int 0) then
    return request ++ (← check atLeast "token" "tokens_per_scan"
        { critical := "Scan exceeded max total tokens"
          warning := "Scan approaching total token limit", show' := plainly }
        scanTotal (t.token.get "max_tokens_per_scan") (t.token.get "warning_tokens_per_scan"))
  return request

/-- Only stages that have a limit are checked. -/
def checkLatency (operation : String) (ms : Value) : Try (List Alert) :=
  let stage := Text.lower operation
  let critical := t.latency.get ("max_" ++ stage ++ "_latency_ms")
  if critical.isNull then .ok []
  else
    check atLeast "latency" operation
      { critical := operation ++ " exceeded max latency"
        warning := operation ++ " approaching latency limit", show' := milliseconds }
      ms critical (t.latency.get ("warning_" ++ stage ++ "_latency_ms"))

def checkQuality (precision recalled fpr : Value) : Try (List Alert) := do
  let fprAlerts ← check atLeast "quality" "fpr"
      { critical := "False Positive Rate is critically high"
        warning := "False Positive Rate is elevated", bound := "max", show' := percent }
      fpr (t.quality.get "max_fpr") (t.quality.get "warning_fpr")
  let precisionAlerts ← check atMost "quality" "precision"
      { critical := "Precision is critically low", warning := "Precision is below target"
        bound := "min", show' := percent }
      precision (t.quality.get "min_precision") (t.quality.get "warning_precision")
  let recallAlerts ← check atMost "quality" "recall"
      { critical := "Recall is critically low", warning := "Recall is below target"
        bound := "min", show' := percent }
      recalled (t.quality.get "min_recall") (t.quality.get "warning_recall")
  return fprAlerts ++ precisionAlerts ++ recallAlerts

variable (m : Monitor)

def record (alerts : List Alert) : Monitor := { m with alerts := m.alerts ++ alerts }

/-- The alerts of a level and a category. A level is named exactly, while an empty category stands for
any. -/
def select (level category : Value) : Try (List Alert) := do
  let wanted ← match level with
    | .null => pure none
    | .text s => match [AlertLevel.info, .warning, .critical].find? (·.text == s) with
      | some l => pure (some l)
      | none => throw .invalid
    | _ => throw .invalid
  return m.alerts.filter fun a =>
    wanted.all (a.level == ·) && (!category.truthy || category.text? == some a.category)

def clear : Monitor := { m with alerts := [] }

end Monitor

def Alert.row (a : Alert) : Try Value := do
  let real (v : Value) : Try Value := (v.asReal.mapError fun
    | .invalid _ => .invalid
    | .tooLarge _ => .tooLarge
    | e => e).map .float
  return .list [.text a.level.text, .text a.category, .text a.metric, ← real a.value, ← real a.threshold,
    .text a.message]

end SecScan.Telemetry
