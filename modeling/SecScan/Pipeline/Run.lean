import SecScan.Calls.Build
import SecScan.Flow.Builder
import SecScan.Ir.Parse
import SecScan.Pipeline.Events
import SecScan.Pipeline.Result
import SecScan.Privacy.Masking
import SecScan.Scan.Obfuscation
import SecScan.Scan.Semgrep
import SecScan.Store.Archive
import SecScan.Syntax.Complaint

/-! The analysis of a file, stage by stage. A stage that fails leaves a note among the errors; some
end the run. -/
namespace SecScan.Pipeline

/-! The settings of a run. -/

structure Config where
  graphs : Bool := false
  stripDocstrings : Bool := false
  baseline : Bool := false
  taint : Taint.Config := .usual

def Config.ofValue (v : Value) : Try Config := do
  v.onlyFields ["enable_ir", "enable_docstring_stripping", "baseline_mode", "semgrep_config", "taint_config",
    "taint_sources", "taint_sinks"]
  return { graphs := v.flag "enable_ir", stripDocstrings := v.flag "enable_docstring_stripping"
           baseline := v.flag "baseline_mode"
           taint := ← Taint.Config.ofNames (v.sub "taint_sources") (v.sub "taint_sinks") }

open Files (Workspace)
open Scan (Baseline BaselineCount Secret Semgrep)

/-- The scanner that matches patterns: one that always answers the same, or a program. -/
inductive Scanner where
  | fixed (report : Try Value)
  | program (s : Semgrep)

structure Session where
  config : Config := {}
  parse : String → Try Syntax.Module
  yaml : String → Embedded.YamlResult
  env : Environment := []
  work : Workspace := {}
  scanner : Scanner := .fixed (.ok (.obj []))
  programs : Programs := {}
  reviewer : Reviewer := {}
  baseline : Option Baseline := none
  /-- The number of blocks made so far; those of one file count on from those before. -/
  blocks : Nat := 0

structure Run where
  session : Session
  source : String
  file : String
  lines : List String
  result : Result
  stopped : Bool := false

def unknownFile : String := "<unknown>"

def isFile (file : String) : Bool := !file.isEmpty && file != unknownFile

namespace Run

variable (r : Run)

def note (message : String) : Run := { r with result := { r.result with errors := r.result.errors ++ [message] } }

def stop : Run := { r with stopped := true }

/-! Scans of the text -/

def scanText : Run :=
  let r := { r with result := { r.result with secrets := Scan.secrets r.source } }
  let signs := Scan.obfuscationSigns r.source
  if Scan.isObfuscated signs then
    let why := if signs.isEmpty then "heuristics" else ", ".intercalate signs
    (r.note ("Obfuscated code detected (" ++ why ++ "). Skipping structural analysis.")).stop
  else r

def commandFailed (command : List String) : Fault :=
  .failed (some ("Command '" ++ (Value.texts command).display ++ "' returned non-zero exit status 1."))

variable (s : Session) (file : String)

def matchPatterns : Try Value × Session :=
  match s.scanner with
  | .fixed report => (report, s)
  | .program p =>
    let command := (p.command (.text file)).map (·.display)
    let (o, programs) := s.programs.run command
    (match Semgrep.report o with
      | .error .programFailed => .error (commandFailed command)
      | x => x, { s with programs })

def scanPatterns : Run :=
  if !isFile r.file then r
  else
    let (report, session) := matchPatterns r.session r.file
    let r := { r with session }
    match report with
    | .ok v => { r with result := { r.result with semgrep := v } }
    | .error e => r.note ("Semgrep scan failed: " ++ e.detail)

/-! Graphs -/

def storedGraph : Try (Option Store.Graph) :=
  if isFile file then do return (← Store.loadFile s.work file).map (·.1) else .ok none

/-- The program graph of a file: the stored one if the file has not changed since, or else a new one,
which is stored if that can be done. -/
def programGraph (source file : String) : Try Store.Graph × Session :=
  match storedGraph s file with
  | .error e => (.error e, s)
  | .ok (some g) => (.ok g, s)
  | .ok none =>
    match s.parse source >>= Ir.parse { stripDocstrings := s.config.stripDocstrings } s.yaml file with
    | .error e => (.error e, s)
    | .ok g =>
      let g := Store.Graph.ofIr g
      (.ok g, if isFile file then { s with work := (Store.save s.work g file).2 } else s)

def addProgramGraph : Run :=
  if !r.session.config.graphs then r
  else
    let (g, session) := programGraph r.session r.source r.file
    let r := { r with session }
    match g with
    | .ok g => { r with result := { r.result with ir := some g.value } }
    | .error e => r.note ("IR parsing failed: " ++ Syntax.refusal r.source unknownFile e)

def moduleName : String :=
  if file == unknownFile then "module" else Text.replace (Path.name file) ".py" ""

/-- A flow graph with the calls of the module and the findings of a report in their places. -/
def layoutOf (cwd file : String) (root : Syntax.Node) (flow : Flow.Graph) (report : Value) : Try (Layout × Value) := do
  let (sites, report) ← place cwd file (sitesOf flow) report
  return ({ flow, sites, calls := ((Calls.Graph.addDefinitions {} root).addFlow flow).addImplicit root }, report)

def layoutFailed (e : Fault) : Run :=
  (r.note ("CFG/CallGraph construction failed: " ++ Syntax.refusal r.source r.file e)).stop

def addLayout : Run :=
  match r.session.parse r.source with
  | .error e => r.layoutFailed e
  | .ok m =>
    let root := Syntax.Node.module m
    let (flow, blocks) := Flow.Graph.buildFrom r.session.blocks (moduleName r.file) root
    let r := { r with session := { r.session with blocks } }
    match layoutOf r.session.work.cwd r.file root flow r.result.semgrep with
    | .error e => r.layoutFailed e
    | .ok (l, report) => { r with result := { r.result with layout := some l, semgrep := report } }

/-! Known findings -/

def leaveOutOf (lines : List String) (b : Baseline) :
    List Site → Try BaselineCount × List Site × Baseline
  | [] => (.ok {}, [], b)
  | s :: rest =>
    match b.filter s.findings (.text file) (.texts lines) with
    | (.error e, b) => (.error e, s :: rest, b)
    | (.ok (kept, c), b) =>
      let (d, rest, b) := leaveOutOf lines b rest
      (d.map c.add, { s with findings := kept } :: rest, b)

def leaveOut (b : Baseline) (l : Layout) : Run :=
  let (c, sites, b) := leaveOutOf r.file r.lines b l.sites
  let (kept, b) : Try (List Secret × BaselineCount) × Baseline := match c with
    | .error e => (.error e, b)
    | .ok c => let (x, b) := b.filterBy Secret.finding r.result.secrets (.text r.file) (.texts r.lines)
      (x.map fun (kept, d) => (kept, c.add d), b)
  let r := { r with session := { r.session with baseline := some b }
                    result := { r.result with layout := some { l with sites } } }
  match kept with
  | .ok (secrets, c) => { r with result := { r.result with secrets, baseline := some c } }
  | .error e => (r.note ("Baseline filtering failed: " ++ e.detail)).stop

def leaveOutKnown : Run :=
  match r.session.baseline, r.result.layout with
  | some b, some l => r.leaveOut b l
  | _, _ => r

/-! Data flow -/

def nameVersions : Run :=
  { r with result := { r.result with ssa := r.result.layout.map fun l => Flow.Ssa.ofGraph l.flow } }

def traceTaint : Run :=
  match r.result.ssa with
  | none => r
  | some s =>
    let flows := (Taint.flows s r.session.config.taint).map (·.flow)
    match ({} : Risk.Ranker).rank flows with
    | .error e => r.note ("Taint ranking failed: " ++ e.detail)
    | .ok ranking =>
      { r with result := { r.result with
          flows, ranking := some ranking, routing := some (Risk.route Risk.modelLevels ranking) } }

/-! Review and masking -/

def askModel : Run :=
  match r.result.layout, r.result.ssa with
  | some l, some s =>
    let reviewer := r.session.reviewer
    if !reviewer.client.configured then r
    else
      let (x, sites, reviewer) := reviewer.reviewAll r.session.work.now
        (Llm.preferredProvider r.session.env) r.file r.lines s l.sites
      let r := { r with session := { r.session with reviewer }
                        result := { r.result with layout := some { l with sites } } }
      match x with
      | .ok _ => r
      | .error e => r.note ("LLM analysis failed: " ++ e.detail)
  | _, _ => r

def maskNames : Run :=
  match do Privacy.mask (.of true []) (← r.session.parse r.source) with
  | .ok m => { r with result := { r.result with masked := some m } }
  | .error e => r.note ("Privacy masking failed: " ++ Syntax.refusal r.source unknownFile e)

/-! The whole run -/

def always (f : Run → Run) : Handler Run := fun r => (.ok (), f r)

def stageActions : List (String × (Run → Run)) :=
  [("static_scan", scanText), ("semgrep", scanPatterns), ("ir", addProgramGraph),
    ("graph_build", addLayout), ("baseline", leaveOutKnown), ("ssa", nameVersions),
    ("taint", traceTaint), ("llm", askModel), ("privacy", maskNames)]

def stageHandlers : Handlers Run := stageActions.map fun (e, f) => (.text e, [always f])

/-- Passes events until a handler fails or the run is stopped. -/
def pass (h : Handlers Run) (r : Run) : List String → Try Unit × Run
  | [] => (.ok (), r)
  | e :: rest => match h.emit (.text e) r with
    | (.error f, r) => (.error f, r)
    | (.ok _, r) => if r.stopped then (.ok (), r) else pass h r rest

end Run

namespace Session

variable (s : Session)

/-- Analyses a text under the name of a file. Further handlers come after those of the stages. -/
def analyze (more : Handlers Run) (source file : String) : Try Result × Session :=
  let s := { s with reviewer := { s.reviewer with gate := s.reviewer.gate.reset } }
  let r : Run := { session := s, source, file, lines := Text.lines source, result := { file } }
  let (x, r) := r.pass (more.apply Run.stageHandlers) events
  (x.map fun _ => r.result, r.session)

/-- Analyses a file. One that cannot be read has a result with nothing but the reason. -/
def analyzeFile (more : Handlers Run) (file : String) : Result × Session :=
  if Scan.hasBinaryExtension file then ({ file, errors := ["Skipping binary file: " ++ file] }, s)
  else
    let (x, s) : Try Result × Session := match s.work.read file with
      | .error e => (.error e, s)
      | .ok source => s.analyze more source file
    match x with
    | .ok r => (r, s)
    | .error e => ({ file, errors := ["File read error: " ++ e.detail] }, s)

end Session

end SecScan.Pipeline
