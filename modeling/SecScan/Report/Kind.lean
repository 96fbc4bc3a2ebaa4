import SecScan.Report.Sarif

/-! The kinds of reports and the files they are written to. One kind shows flows of foreign data as
graphs, from the source over the versions of variables to the sink. -/
namespace SecScan.Report

def spanKeys : List String := ["start_line", "start_col", "end_line", "end_col"]

/-- A place in a file; what is not known of it is −1. -/
def spanIn (path : String) (place : Value) : Try Value :=
  if !place.truthy then .ok (.obj (("file", .text path) :: spanKeys.map fun k => (k, .int (-1))))
  else do
    let at' ← spanKeys.mapM fun k => do return (k, ← place.field k (.int (-1)))
    return .obj (("file", .text path) :: at')

def versionSpan (path : String) (spans version : Value) : Try Value := do
  unless spans.isMap do throw .noField
  unless Syntax.isHashable version do throw .wrongKind
  spanIn path (((spans.entries.find? (·.1.same version)).map (·.2)).getD .null)

def nodeAt (span : Value) : List Value → Try (Value × Value)
  | [] => .ok (.null, .null)
  | n :: rest => do
    let place ← n.field "span" (.obj [])
    unless place.isMap do throw .noField
    if spanKeys.all fun k => (place.sub k).same (span.sub k) then return (n.sub "id", n.sub "kind")
    nodeAt span rest

def traceNode (nodes : Value) (id : Nat) (role : String) (label span : Value) : Try Value := do
  let (ref, kind) ← if nodes.truthy then do nodeAt span (← nodes.each) else pure (.null, .null)
  return .obj [("id", .text ("n" ++ toString id)), ("role", .text role), ("label", label),
    ("span", span), ("ir_ref", ref), ("ir_kind", kind)]

def step (a b : Nat) : Value :=
  .obj [("src", .text ("n" ++ toString a)), ("dst", .text ("n" ++ toString b)), ("kind", .text "taint")]

def traceOf (path : String) (spans nodes flow : Value) : Try Value := do
  let versions ← flow.eachAt "path"
  let source := flow.getD "source" (.text "unknown")
  let sink := flow.getD "sink" (.text "unknown")
  let first ← traceNode nodes 1 "Source" source (← match versions.head? with
    | some v => versionSpan path spans v
    | none => spanIn path .null)
  let inner ← (versions.tail.zipIdx 2).mapM fun (v, i) => do
    traceNode nodes i "Transform" v (← versionSpan path spans v)
  let count := inner.length + 2
  let span ← spanIn path (flow.sub "sink_span")
  let last ← traceNode nodes count "Sink" sink span
  let rule := "taint." ++ sink.display
  return .obj [("finding_id", .text (rule ++ "::" ++ path ++ ":" ++ (span.sub "start_line").display)),
    ("rule_id", .text rule), ("file", .text path), ("nodes", .list ([first] ++ inner ++ [last])),
    ("edges", .list ((List.range (count - 1)).map fun i => step (i + 1) (i + 2))),
    ("summary", .obj [("source_label", source), ("sink_label", sink), ("path_length", .nat count)])]

def fileTraces (path : String) (file : Value) : Try (List Value) := do
  let flows ← file.field "taint_flows" (.list [])
  if !flows.truthy then return []
  let spans ← (file.getD "taint_trace_meta" (.obj [])).field "versions" (.obj [])
  let nodes ← (file.getD "ir" (.obj [])).field "nodes" (.list [])
  (← flows.each).mapM (traceOf path spans nodes)

def traces (results : Value) : Try Value := do
  let l ← (← filesOf results).mapM fun (p, f) => fileTraces p f
  return .obj [("schema_version", .int 1), ("traces", .list l.flatten)]

inductive Kind where
  | markdown
  | debug
  | sarif
  | ir
  | graph
  deriving DecidableEq, Repr, Inhabited

namespace Kind

def all : List Kind := [.markdown, .debug, .sarif, .ir, .graph]

def name : Kind → String
  | .markdown => "markdown"
  | .debug => "debug"
  | .sarif => "sarif"
  | .ir => "ir"
  | .graph => "graph"

def baseName : Kind → String
  | .debug => "nsss_debug"
  | .graph => "nsss_graph"
  | _ => "nsss_report"

def extension : Kind → String
  | .markdown => ".md"
  | .sarif => ".sarif"
  | .ir => ".ir.json"
  | .debug | .graph => ".json"

def fileName (k : Kind) : String := k.baseName ++ k.extension

def ofName? (s : String) : Option Kind := all.find? (·.name == Text.lower s)

end Kind

/-- The kinds that are asked for; unknown ones are passed over, and none means all. -/
def selected (names : List String) : List Kind :=
  if names.isEmpty then Kind.all else names.filterMap Kind.ofName?

def selectedBy (types : Value) : Try (List Kind) := do
  if !types.truthy then return Kind.all
  return selected (← (← types.each).mapM (·.asText "lower"))

def debug (results metadata : Value) : Value :=
  .obj ([("metadata", metadata), ("results", results)]
    ++ ((metadata.get? "baseline").map fun b => ("baseline", b)).toList)

def programGraphs (results : Value) : Try Value := do
  let l ← (← filesOf results).mapM fun (p, f) => do return (p, ← f.field "ir")
  return .obj [("files", .obj (l.filter (·.2.truthy)))]

inductive Body where
  | text (s : String)
  | document (v : Value)

def Body.content : Body → Try Files.Content
  | .text s => .ok (.text s)
  | .document v => (Json.render (Json.indented 2) v).map .text

def body (results metadata : Value) : Kind → Try Body
  | .markdown => (markdown results metadata).map .text
  | .debug => .ok (.document (debug results metadata))
  | .sarif => (sarif results metadata).map .document
  | .ir => (programGraphs results).map .document
  | .graph => (traces results).map .document

/-- What all reports of one run are told; they refer to the graph if there is one. -/
def shared (kinds : List Kind) (metadata : Value) : Try Value := do
  let m := Value.map (← (metadata.orElse (.obj [])).asTable)
  return if kinds.contains .graph then m.put "graph_report_name" (.text Kind.graph.fileName) else m

/-! Reports written to a directory. -/

open Files (Workspace)

/-- Writes a report and tells where. A file whose document cannot be written to its end stays behind
empty and is not told of. -/
def writeOne (w : Workspace) (dir : String) (results metadata : Value) (k : Kind) : Option String × Workspace :=
  let path := Path.join dir k.fileName
  let written (c : Files.Content) (told : Option String) : Option String × Workspace :=
    match w.write path c with
    | .ok w => (told, w)
    | .error _ => (none, w)
  match body results metadata k with
  | .error _ => (none, w)
  | .ok b => match b.content with
    | .ok c => written c (some path)
    | .error _ => written (.text "") none

def writeEach (w : Workspace) (dir : String) (results metadata : Value) : List Kind → List String × Workspace
  | [] => ([], w)
  | k :: rest =>
    let (path, w) := writeOne w dir results metadata k
    let (paths, w) := writeEach w dir results metadata rest
    (path.toList ++ paths, w)

def writeAll (w : Workspace) (dir : String) (kinds : List Kind) (results metadata : Value) :
    Try (List String) × Workspace :=
  match if w.has dir then .ok w else w.makeDirs dir with
  | .error _ => (.ok [], w)
  | .ok w => keeping w (shared kinds metadata) fun m =>
    let (paths, w) := writeEach w dir results m kinds; (.ok paths, w)

end SecScan.Report
