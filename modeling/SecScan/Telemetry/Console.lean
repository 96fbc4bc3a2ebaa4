import SecScan.Telemetry.Metrics
import SecScan.Telemetry.Record
import SecScan.Telemetry.Thresholds

/-! Scripts for counts and limits. -/
namespace SecScan.Telemetry

def Metrics.console : Console Metrics where
  step m t name args :=
    let noted (r : Try Metrics) (t : Float) : Answer × Metrics × Float := keeping (m, t) r fun m => (.ok .null, m, t)
    match name, args with
    | "tokens", [k, a, b] => let (r, m) := m.trackTokens k a b; (r.map fun _ => .null, m, t)
    | "feedback", [f] => noted (do return m.trackFeedback (← f.asText "upper")) t
    | "latency", [o, x] => noted (m.trackLatency o x) t
    | "measure", [o, x] => match x.number? with
      | some d => noted (m.trackLatency o (.float ((t + d - t) * 1000.0))) (t + d)
      | none => keeping (m, t) (m.trackLatency o (.float 0.0)) fun m => (.error .wrongKind, m, t)
    | "summary", _ => (m.summary, m, t)
    | "dump", _ => (m.dumped, m, t)
    | "bad_dump", _ => (.ok .null, m, t)
    | "reset", _ => (.ok .null, {}, t)
    | "same", _ => (.ok (.bool true), m, t)
    | _, _ => (.error (misused ["tokens", "feedback", "latency", "measure"] name), m, t)

def Monitor.console : Console Monitor := .timeless (fun m _ name args =>
    let shown (l : List Alert) : Answer := do return .list (← l.mapM (·.row))
    let raised (r : Try (List Alert)) : Answer × Monitor := keeping m r fun l => (shown l, m.record l)
    match name, args with
    | "tokens", [a, b] => raised (checkTokens m.thresholds a b (.int 0))
    | "tokens", [a, b, c] => raised (checkTokens m.thresholds a b c)
    | "latency", [o, x] => raised (do checkLatency m.thresholds (← o.asText "lower") x)
    | "quality", [a, b, c] => raised (checkQuality m.thresholds a b c)
    | "alerts", [] => (shown m.alerts, m)
    | "alerts", [l] => (m.select l .null >>= shown, m)
    | "alerts", [l, c] => (m.select l c >>= shown, m)
    | "clear", _ => (.ok .null, m.clear)
    | "global", _ => (.ok (.bool true), m)
    | "reset_global", _ => (.ok .null, m)
    | _, _ => (.error (misused ["tokens", "latency", "quality", "alerts"] name), m))
  fun m => some (.nat m.alerts.length)

def LogRecord.ofValue (v : Value) : Try LogRecord := do
  let args ← (v.getD "args" (.list [])).each
  let extra := v.getD "extra" (.obj [])
  unless extra.isMap do throw (extra.lacks "items")
  if extra.has "__class__" then throw .wrongKind
  return { message := v.sub "msg", args, level := v.getD "level" (.int 20)
           logger := v.getD "logger" (.text "l"), line := v.getD "line" (.int 1)
           function := v.getD "func" (.text "f"), created := v.getD "created" (.int 0)
           extra := extra.fields }

end SecScan.Telemetry
