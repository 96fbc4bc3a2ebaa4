import SecScan.Pipeline.Run
import SecScan.Report.Kind

/-! The part that comes with every run: it turns away files that are too long and writes reports of
its own, as the environment says. -/
namespace SecScan.Pipeline

/-- The number of lines from which on a file is too long, if there is one. -/
def maxLines (env : Environment) : Option Nat := do
  let n ← (Value.text (← env.get? "NSSS_PLUGIN_MAX_LINES")).toWhole.toOption
  if n ≤ 0 then none else some n.toNat

def turnAway (r : Run) : Run :=
  match maxLines r.session.env with
  | none => r
  | some n =>
    if n < r.lines.length then
      (r.note ("Plugin gatekeeper: file exceeds max lines (" ++ toString r.lines.length ++ " > "
        ++ toString n ++ ")")).stop
    else r

/-- The kinds of reports that are asked for; no names at all mean every kind. -/
def reportKinds (env : Environment) : List Report.Kind :=
  Report.selected (((env.get? "NSSS_PLUGIN_REPORT_TYPES").map fun s =>
    ((Text.split s ",").filter (· != "")).map fun x => Text.lower (Text.strip x)).getD [])

def writeReports (r : Run) : Run :=
  match r.session.env.get? "NSSS_PLUGIN_REPORT_DIR" with
  | none => r
  | some dir =>
    let (_, work) := Report.writeAll r.session.work dir (reportKinds r.session.env)
      (.obj [(r.file, r.result.value)]) (.obj [("plugin", .text "pipeline_default")])
    { r with session := { r.session with work } }

def pluginHandlers (package : String := pluginPackage) : Handlers Run :=
  (({} : Registry Run).load
    (discover package (fun r => (.ok (), turnAway r)) fun r => (.ok (), writeReports r))).2.handlers

end SecScan.Pipeline
