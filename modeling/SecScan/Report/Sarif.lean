import SecScan.Report.Markdown
import SecScan.Syntax.Constant

/-! The report for other tools, in the Static Analysis Results Interchange Format. -/
namespace SecScan.Report

open Text

/-! Verdicts -/

variable (verdict : String)

def normalVerdict : String :=
  if verdict.isEmpty then "unverified" else strip (replace (lower verdict) "_" " ")

def levelOf : String :=
  let v := normalVerdict verdict
  if holds v "true positive" then "error"
  else if holds v "false positive" then "note"
  else "warning"

def messageOf (rationale remediation : Value) : String :=
  title (normalVerdict verdict) ++ ": "
    ++ (rationale.orElse (.text "No rationale provided.")).display ++ "\n\nRemediation:\n"
    ++ (remediation.orElse (.text "No remediation provided.")).display

structure Judgement where
  verdict : String := "unverified"
  rationale : Value
  remediation : Value := .text "LLM analysis skipped."
  confidence : Option Float := none
  fix : Option String := none
  code : Option String := none

namespace Judgement

variable (item : Value)

def confidenceOf : Try (Option Float) :=
  match ["confidence", "confidence_score"].findSome? fun k => (item.sub k).number?.map (item.sub k, ·) with
  | some (.int _, x) => if x.isFinite then .ok (some x) else .error (.invalid none)
  | some (_, x) => .ok (some x)
  | none => .ok none

def firstText (keys : List String) : Option String :=
  keys.findSome? fun k => (item.sub k).text?.filter fun s => !(strip s).isEmpty

def verdictOf : Try String :=
  match item.getD "verdict" (.text "needs_review") with
  | .text s => .ok (normalVerdict s)
  | v => if v.truthy then .error .noField else .ok "unverified"

def ofInsight : Try Judgement := do
  return { verdict := ← verdictOf item, rationale := item.getD "rationale" (.text "")
           remediation := item.getD "remediation" (.text ""), confidence := ← confidenceOf item
           fix := (firstText item ["fix_suggestion", "fix_description", "remediation_description",
             "remediation", "fix"]).map strip
           code := firstText item ["secure_code_snippet", "secure_code", "secure_code_fix"] }

def ofFinding (finding : Value) : Judgement :=
  { rationale := finding.getD "message" (.text "Detected by static analysis.") }

end Judgement

/-! Fixes -/

def shifted (v : Value) (n : Int) : Try Number :=
  match Number.ofValue? v with
  | some x => .ok (x.add (.whole n))
  | none => .error .wrongKind

def beginOf (finding : Value) : Value := (finding.sub "column").orElse (.int 1)

/-- The column where a finding itself ends: the stated one or else the next. -/
def endOf (finding : Value) : Try Value :=
  let stated := (finding.sub "end_column").orElse (finding.sub "endColumn")
  if stated.truthy then .ok stated else (shifted (beginOf finding) 1).map (·.value)

def reach (code : Option String) : Nat := ((code.bind fun s => (lines s).head?).getD "").length

/-- The column where a finding ends, or where code in its place ends if that is farther. -/
def endReached (finding : Value) (reach : Nat) : Try Value := do
  let own ← endOf finding
  if reach == 0 then return own
  let far ← shifted (beginOf finding) reach
  match Number.ofValue? own with
  | some x => return if x.lt far then far.value else own
  | none => throw .wrongKind

/-- The region that a fix replaces; it grows with the first line of the new code. -/
def deletedRegion (finding : Value) (code : Option String) : Try Value := do
  let line := (finding.sub "line").orElse (.int 1)
  let endLine := ((finding.sub "end_line").orElse (finding.sub "endLine")).orElse line
  return .obj [("startLine", line), ("startColumn", beginOf finding), ("endLine", endLine),
    ("endColumn", ← endReached finding (reach code))]

variable (path : String)

def location : Value := .obj [("uri", .text (replace path "\\" "/"))]

def fixesOf (finding : Value) (j : Judgement) : Try (Option Value) := do
  if j.fix.isNone && j.code.isNone then return none
  let region ← deletedRegion finding j.code
  return some (.list [.obj [("description", .obj [("text", .text (j.fix.getD "Apply secure fix."))]),
     ("artifactChanges", .list [.obj [("artifactLocation", location path),
       ("replacements", .list [.obj [("deletedRegion", region),
         ("insertedContent", .obj [("text", .text (j.code.getD ""))])]])]])]])

/-! Results and rules -/

/-- Enters an item of the model's analysis under its check, before earlier ones. -/
def enterItem (m : Entries) (item : Value) : Try Entries := do
  let id ← item.field "check_id"
  if !id.truthy then return m
  if !Syntax.isHashable id then throw .wrongKind
  return (id, item) :: m

/-- The items of the model's analysis of a block; of those for one check the last one counts. -/
def insightItems (block : Value) : Try Entries := do
  (← block.eachAt "llm_insights").foldlM (fun m insight => do (← insight.eachAt "analysis").foldlM enterItem m) []

def ruleOf (id : Value) : Value :=
  .obj [("id", id), ("shortDescription", .obj [("text", .text ("Security check " ++ id.display))]),
    ("helpUri", if holds (lower id.display) "semgrep" then
      .text ("https://semgrep.dev/r/" ++ id.display) else .null)]

def judgementOf (insights : Entries) (id finding : Value) : Try Judgement :=
  match insights.find? (·.1.sameKey id) with
  | some (_, item) => Judgement.ofInsight item
  | none => .ok (Judgement.ofFinding finding)

def resultDocument (metadata id finding : Value) (j : Judgement) (fixes : Option Value) : Value :=
  let trace := metadata.sub "graph_report_name"
  .obj ( [("ruleId", id), ("level", .text (levelOf j.verdict)),
     ("message", .obj [("text", .text (messageOf j.verdict j.rationale j.remediation))]),
     ("locations", .list [.obj [("physicalLocation", .obj [("artifactLocation", location path),
       ("region", .obj [("startLine", finding.getD "line" (.int 1)),
         ("startColumn", finding.getD "column" (.int 1))])])]]),
     ("properties", .obj ([("verdict", .text j.verdict), ("remediation", j.remediation)]
       ++ (if trace.truthy then [("graph_trace", trace)] else [])
       ++ (j.confidence.map fun x => ("confidence", Value.float x)).toList
       ++ (if j.rationale.truthy then [("ai_reasoning", j.rationale)] else [])))]
    ++ (fixes.map fun f => ("fixes", f)).toList)

def resultOf (metadata : Value) (insights : Entries) (finding : Value) : Try (Option Value) := do
  let id ← finding.field "check_id"
  if !id.truthy then return none
  if !Syntax.isHashable id then throw .wrongKind
  let j ← judgementOf insights id finding
  let fixes ← fixesOf path finding j
  return some (resultDocument path metadata id finding j fixes)

def blockResults (metadata block : Value) : Try (List Value) := do
  let findings ← block.field "security_findings" (.list [])
  let insights ← insightItems block
  return (← (← findings.each).mapM (resultOf path metadata insights)).filterMap id

/-- The results of one file; there are none of a file that could not be scanned. -/
def fileResults (metadata : Value) (path : String) (file : Value) : Try (List Value) := do
  if ← file.mentions "error" then return []
  return (← (← fileBlocks file).mapM (blockResults path metadata)).flatten

def rulesOf (results : List Value) : List Value :=
  (results.map (·.sub "ruleId")).foldl (fun ids id => if ids.any (·.sameKey id) then ids else ids ++ [id]) []

def sarif (results metadata : Value) : Try Value := do
  let all := (← (← filesOf results).mapM fun (p, f) => fileResults metadata p f).flatten
  return .obj [("version", .text "2.1.0"),
    ("$schema", .text ("https://raw.githubusercontent.com/oasis-tcs/sarif-spec/master/Schemata/"
      ++ "sarif-schema-2.1.0.json")),
    ("runs", .list [.obj [("tool", .obj [("driver", .obj [("name", .text "Neuro-Symbolic Software Security"),
        ("version", .text "1.0.0"), ("rules", .list ((rulesOf all).map ruleOf))])]),
       ("results", .list all)]])]

end SecScan.Report
