import SecScan.Command.Act
import SecScan.Pipeline.Extension
import SecScan.Scan.Impact

/-! The command that scans a file or a directory. -/
namespace SecScan.Command

open Files (Workspace)
open Scan (Baseline BaselineEntry)
open Pipeline (Session)

structure ScanRequest where
  target : String
  mode : String := "audit"
  format : String := "text"
  baseline : Bool := false
  baselineOnly : Bool := false
  baselineReset : Bool := false
  reportTypes : List String := []
  emitIr : Bool := false
  stripDocstrings : Bool := false
  diff : Bool := false
  reportDir : String := "."

/-- The files with source text in a directory: first its own, then those of each directory in it. -/
def sourceFiles (w : Workspace) : Nat → String → List String
  | 0, _ => []
  | n + 1, dir =>
    let names := (w.disk.names (w.absolute dir)).mergeSort (· ≤ ·)
    let at' (name : String) := w.absolute (Path.join dir name)
    (names.filter fun x => w.disk.isFile (at' x) && Text.hasSuffix x ".py").map (Path.join dir)
      ++ (names.filter fun x => w.disk.isDir (at' x)).flatMap fun x => sourceFiles w n (Path.join dir x)

/-! What a change concerns -/

def changedFiles (root : String) : Act (List String) := do
  let p := (← get).programs
  let (files, commands) := Scan.changedFiles root (.text Scan.defaultBase) ((p.outcomes.lookup "git").getD [])
  modify fun h => { h with programs := commands.foldl (fun p c => (p.run (c.map (·.display))).2) p }
  demand files

variable (r : ScanRequest)

/-- The files to which a scan of changes is limited. Without any there is nothing to do. -/
def limitedTo : Act (Option (List String)) := do
  if !r.diff then return none
  say "Running in Diff Mode..."
  let root := (← work).cwd
  let changed ← changedFiles root
  let impacted ← demand (Scan.impactedFiles (← work) root changed)
  say ("Diff Analysis: " ++ toString changed.length ++ " changed, " ++ toString impacted.length ++ " impacted.")
  if impacted.isEmpty then
    say "No files impacted. Exiting."
    throw .done
  return some impacted

/-! Known findings -/

def loadBaseline : Act Baseline := do
  let w ← work
  let (_, b) ← demand (Baseline.load { cwd := w.cwd, root := w.cwd } (w.read (Scan.baselinePath w.cwd)).toOption)
  return b

def dropBaseline : Act Unit := do
  let w ← work
  let path := Scan.baselinePath w.cwd
  if w.has path then setWork (← demand (w.remove path))

def saveBaseline (b : Baseline) (entries : List BaselineEntry) : Act Unit := do
  let w ← work
  let path := Scan.baselinePath w.cwd
  change (·.makeDirs (Path.parent path))
  let text ← demand (Json.render (Json.indented 2) (b.document w.now entries))
  change (·.write path (.text text))
  say ("Baseline saved: " ++ path)

def baselineToWrite : Act (Option Baseline) := do
  if r.baseline || r.baselineReset || r.mode == "baseline" then
    let b ← loadBaseline
    if r.baselineReset then dropBaseline
    return some b
  else return none

/-! The analysis -/

def rulesFile (w : Workspace) : String := Path.joinAll w.cwd ["rules", "nsss-python-owasp.yml"]

def sessionFor : Act Session := do
  let h ← get
  let baseline ← if r.baselineOnly then some <$> loadBaseline else pure none
  let rules := rulesFile h.work
  return { config := { graphs := r.emitIr, stripDocstrings := r.stripDocstrings, baseline := r.baselineOnly }
           parse := h.parse, yaml := h.yaml, work := h.work, programs := h.programs, baseline
           scanner := .program { config := .text (if h.work.has rules then rules else "auto") } }

def entriesOf (known : Option Baseline) (result : Pipeline.Result) (path : String) : Act (List BaselineEntry) := do
  match known, result.layout with
  | some b, some l =>
    let w ← work
    let lines := Text.lines (← demand (w.read path))
    demand (b.entries w.now (l.sites.flatMap (·.findings) ++ result.secrets.map (·.finding)) (.text path)
      (.texts lines))
  | _, _ => return []

/-- Analyses files one after the other. The answer has the results and the entries for a baseline. -/
def analyzeEach (known : Option Baseline) (s : Session) :
    List String → Act (Session × Fields × List BaselineEntry)
  | [] => return (s, [], [])
  | path :: rest => do
    let (result, s) := s.analyzeFile Pipeline.pluginHandlers path
    modify fun h => { h with work := s.work, programs := s.programs }
    let entries ← entriesOf known result path
    let (s, results, more) ← analyzeEach known s rest
    return (s, (path, result.value) :: results, entries ++ more)

def targets (limits : Option (List String)) : Act (List String) := do
  let w ← work
  let isWanted (p : String) := match limits with
    | none => true
    | some l => l.contains (w.absolute p)
  if w.disk.isFile (w.absolute r.target) then
    if isWanted r.target then return [r.target]
    say ("Skipping " ++ r.target ++ " (not in impacted set)")
    return []
  return (sourceFiles w (w.disk.entries.length + 1) r.target).filter isWanted

/-! Reports -/

def writeDebug (dir : String) (payload : Fields) : Act Unit := do
  if payload.isEmpty then return
  if dir.isEmpty then throw (.fault (.missing none))
  unless (← work).has dir do change (·.makeDirs dir)
  let path := Path.join dir "nsss_debug.json"
  change (·.write path (.text (← demand (Json.render (Json.indented 2) (.obj payload)))))
  say ("Debug output: " ++ path)

def summaryOf (file : String) (result : Value) : List String :=
  ["", "File: " ++ file] ++ match result.get? "error" with
    | some e => ["  Error: " ++ e.display]
    | none =>
      let stats := result.sub "stats"
      let phis := ((result.sub "structure").listAt "blocks").filter fun b => (b.sub "phis").truthy
      ["  CFG: " ++ (stats.sub "block_count").display ++ " blocks, " ++ (stats.sub "edge_count").display ++ " edges",
        "  Vars: " ++ (stats.sub "var_count").display ++ " variables tracked"]
      ++ if phis.isEmpty then ["  No Phi nodes found."]
        else phis.map fun b => "  Block " ++ (b.sub "id").display ++ " Phis: " ++ (b.sub "phis").display

def report (results : Fields) (known : Fields) : Act Unit := do
  let all := Value.obj results
  let graph ← if r.reportTypes.isEmpty || r.reportTypes.contains "graph" then do
      pure [("graph", ← demand (Report.traces all))]
    else pure []
  writeDebug r.reportDir (known ++ graph)
  say ("Generating reports in " ++ r.reportDir ++ "...")
  let (paths, w) := Report.writeAll (← work) r.reportDir (Report.selected r.reportTypes) all (.obj known)
  setWork w
  sayAll ((← demand paths).map ("  - " ++ ·))
  say "Reports generated."
  if r.format == "json" then say (← demand (Json.render (Json.indented 2) all))
  else sayAll (results.flatMap fun (file, result) => summaryOf file result)
  sayAll ["", "Scan complete."]

def scan : Act Unit := do
  sayAll ["Initializing NSSS Scan...", "Target: " ++ r.target, "Mode: " ++ r.mode, "Format: " ++ r.format,
    "Loaded Configuration: HOST=0.0.0.0, DEBUG=True"]
  let limits ← limitedTo r
  say "Running analysis pipeline..."
  let toWrite ← baselineToWrite r
  let session ← sessionFor r
  let (session, results, entries) ← analyzeEach toWrite session (← targets r limits)
  if let some b := toWrite then saveBaseline b entries
  report r results ((session.baseline.map fun b => ("baseline", b.summary)).toList)

end SecScan.Command
