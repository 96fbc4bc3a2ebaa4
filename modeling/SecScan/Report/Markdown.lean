import SecScan.Llm.Answer

/-! The report for readers: a section per finding, file after file. -/
namespace SecScan.Report

structure Section where
  checkId : Value
  verdict : String
  isConfirmed : Bool
  rationale : Value
  remediation : Value
  snippet : Value
  block : Value
  region : Value

namespace Section

def ofInsight (block snippet item : Value) : Try Section := do
  match ← item.field "verdict" (.text "Unknown") with
  | .text verdict =>
    return { checkId := item.getD "check_id" (.text "Unknown"), verdict
             isConfirmed := Text.holds (Text.replace (Text.lower verdict) "_" " ") "true positive"
             rationale := item.getD "rationale" (.text "No rationale provided.")
             remediation := item.getD "remediation" (.text "No remediation provided.")
             snippet, block := block.sub "id", region := block.sub "scope" }
  | _ => throw .noField

def ofFinding (block finding : Value) : Try Section := do
  return { checkId := ← finding.field "check_id" (.text "Unknown")
           verdict := "Unverified (Static Analysis)", isConfirmed := false
           rationale := finding.getD "message" (.text "No message provided.")
           remediation := .text "No remediation available (LLM disabled).", snippet := .text ""
           block := block.sub "id", region := block.sub "scope" }

def codeBlock (title : String) (code : Value) : String :=
  "**" ++ title ++ "**:\n" ++ Llm.fence ++ "python\n" ++ code.display ++ "\n" ++ Llm.fence ++ "\n"

def lines (n : Nat) (s : Section) : List String :=
  ["### " ++ toString n ++ ". " ++ s.checkId.display ++ " " ++ (if s.isConfirmed then "🔴" else "⚪"),
   "**Verdict**: " ++ s.verdict,
   "**Scope**: \x60" ++ s.region.display ++ "\x60 (Block " ++ s.block.display ++ ")",
   "\n**Rationale**:\n" ++ s.rationale.display ++ "\n"]
  ++ (if s.snippet.truthy then [codeBlock "Vulnerable Code" s.snippet] else [])
  ++ (if s.remediation.truthy then [codeBlock "Remediation" s.remediation] else [])
  ++ ["---\n"]

end Section

def insightSections (block insight : Value) : Try (List Section) := do
  let analysis ← insight.field "analysis" (.list [])
  if analysis.truthy then (← analysis.each).mapM (Section.ofInsight block (insight.getD "snippet" (.text "")))
  else return []

/-- The sections of a block. If the model has spoken on it, only what it said counts. -/
def blockSections (block : Value) : Try (List Section) := do
  let findings ← block.field "security_findings" (.list [])
  let insights ← block.field "llm_insights" (.list [])
  if insights.truthy then return (← (← insights.each).mapM (insightSections block)).flatten
  else if findings.truthy then (← findings.each).mapM (Section.ofFinding block)
  else return []

def fileBlocks (file : Value) : Try (List Value) := do
  (← file.field "structure" (.obj [])).eachAt "blocks"

def fileSections (file : Value) : Try (List Section) := do
  return (← (← fileBlocks file).mapM blockSections).flatten

def fileTitle (path : String) : String := "## File: \x60" ++ path ++ "\x60"

def fileLines (path : String) (file : Value) : Try (List String × Bool) := do
  match ← file.mentioned? "error" with
  | some e => return ([fileTitle path, "**Error during scan**: " ++ e.display ++ "\n"], false)
  | none =>
    let sections ← fileSections file
    if sections.isEmpty then return ([], false)
    return ((fileTitle path ++ "\n") :: (sections.zipIdx 1).flatMap fun (s, n) => s.lines n, true)

def baselineLines (metadata : Value) : Try (List String) :=
  match metadata.get? "baseline" with
  | none => .ok []
  | some stats => do
    let count (k : String) : Try String := do return (← stats.field k (.int 0)).display
    return ["## Baseline Summary", "*   **Total Findings**: " ++ (← count "total"),
      "*   **New Findings**: " ++ (← count "new"),
      "*   **Existing (Suppressed)**: " ++ (← count "existing"),
      "*   **Resolved**: " ++ (← count "resolved") ++ "\n"]

def filesOf (results : Value) : Try Fields :=
  match results with
  | .map _ => .ok results.fields
  | _ => .error .noField

def allClear : String := "\n✅ No security issues found (or no files scanned).\n"

def markdown (results metadata : Value) : Try String := do
  let baseline ← baselineLines metadata
  let files ← (← filesOf results).mapM fun (p, f) => fileLines p f
  return Text.join "\n" (["# Neuro-Symbolic Security Scan Report\n"] ++ baseline
    ++ files.flatMap (·.1) ++ if files.any (·.2) then [] else [allClear])

end SecScan.Report
