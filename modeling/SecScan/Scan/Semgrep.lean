import SecScan.Data

/-! Findings of an outer scanner that matches patterns. -/
namespace SecScan.Scan

structure Semgrep where
  config : Value := .text "auto"
  program : Value := .text "semgrep"

namespace Semgrep

/-- Settings as they are given; without a configuration the environment has one, or all rules fit. -/
def ofValue (env : Environment) (v : Value) : Try Semgrep := do
  v.onlyFields ["config", "timeout", "executable"]
  return { config := (v.sub "config").orElse (.text ((env.lookup "SEMGREP_CONFIG").getD "auto"))
           program := v.getD "executable" (.text "semgrep") }

def command (s : Semgrep) (target : Value) : List Value :=
  [s.program, .text "--json", .text "--config", s.config, target]

def failure (why : String) (more : Fields := []) : Value :=
  .obj ([("error", .text why), ("results", .list []), ("errors", .list [])] ++ more)

/-- Whether a code tells of a run without trouble: of 1 only if there are findings. -/
def isUsual (code : Value) : Bool :=
  match code.number? with
  | some x => x == 0.0 || x == 1.0
  | none => false

def withTrouble (doc code : Value) : Try Value :=
  let note := Value.obj [("level", .text "error"), ("message", .text ("semgrep exited with code " ++ code.display))]
  match doc with
  | .map _ => match doc.getD "errors" (.list []) with
    | .list l => .ok (doc.put "errors" (.list (l ++ [note])))
    | v => .error (v.lacks "append")
  | _ => .error (doc.lacks "setdefault")

def report : Outcome → Try Value
  | .missing => .ok (failure "semgrep not installed")
  | .timedOut => .ok (failure "semgrep timeout")
  | .failed => .error .programFailed
  | .ended output errors code => do
    let out ← (output.orElse (.text "")).asText "strip"
    let err := ("stderr", errors.orElse (.text ""))
    if (Text.strip out).isEmpty then
      return failure ("semgrep produced no output (code " ++ code.display ++ ")") [err]
    match ← Json.readIfJson out with
    | none => return failure "semgrep output parse failed" [("stdout", .text out), err]
    | some doc => if isUsual code then return doc else withTrouble doc code

end Semgrep

/-! Rules of our own -/

def bundledRules : String := "python_security.yaml"

def ruleFinding? (r : Value) : Option Value := do
  let start ← r.get? "start"
  let extra ← r.get? "extra"
  return .obj [("check_id", ← r.get? "check_id"), ("path", ← r.get? "path"),
    ("line", ← start.get? "line"), ("column", ← start.get? "col"),
    ("message", ← extra.get? "message"), ("severity", ← extra.get? "severity"),
    ("metadata", extra.getD "metadata" (.obj []))]

def ruleFindings (report : Value) : Try (List Value) := do
  if (← report.mentioned? "error").isSome then return []
  return (← report.eachAt "results").filterMap ruleFinding?

end SecScan.Scan
