import SecScan.Calls.Graph
import SecScan.Pipeline.Review
import SecScan.Risk.Ranking
import SecScan.Scan.Baseline
import SecScan.Scan.Secrets

/-! What a run finds out about a file. -/
namespace SecScan.Pipeline

open SecScan.Flow (Ssa)

structure Layout where
  flow : Flow.Graph
  sites : List Site
  calls : Calls.Graph

structure Result where
  file : String
  layout : Option Layout := none
  ssa : Option Ssa := none
  ir : Option Value := none
  semgrep : Value := .obj []
  secrets : List Scan.Secret := []
  masked : Option (String × List (String × String)) := none
  flows : List Taint.Flow := []
  ranking : Option Risk.Ranking := none
  routing : Option Risk.Plan := none
  errors : List String := []
  baseline : Option Scan.BaselineCount := none

/-! As documents -/

def spanValue (line col endLine endCol : Int) : Value :=
  .obj [("start_line", .int line), ("start_col", .int col), ("end_line", .int endLine), ("end_col", .int endCol)]

def flowValue (f : Taint.Flow) : Value :=
  .obj [("source", .text f.source), ("sink", .text f.sink), ("path", .texts f.path), ("implicit", .bool f.implicit),
    ("sink_span", Value.ofOption (fun s => spanValue s.line s.col s.endLine s.endCol) f.span)]

def placeOf (i : Flow.Item) : Value :=
  match i.node.loc? with
  | some l => spanValue l.line l.col l.endLine l.endCol
  | none => spanValue (-1) (-1) (-1) (-1)

/-- Where each version is made; a phi stands nowhere. -/
def versionPlaces (s : Ssa) : Value :=
  .obj (s.blocks.foldl (fun l b =>
    let l := b.phis.foldl (fun l p => putField p.result.text (spanValue (-1) (-1) (-1) (-1)) l) l
    b.items.foldl (fun l i => i.writes.foldl (fun l w => putField w.2.text (placeOf i.item) l) l) l) [])

def siteValue (ssa : Option Ssa) (s : Site) : Value :=
  .obj [("id", .nat s.block.id), ("scope", .text s.block.scope.name), ("stmt_count", .nat s.block.items.length),
    ("phis", .texts ((ssa.map (phiTexts · s.block.id)).getD [])),
    ("security_findings", .list s.findings), ("llm_insights", .list s.insights)]

def edgeValues (g : Flow.Graph) : List Value :=
  (g.ids.flatMap g.outEdges).map fun e =>
    .obj [("source", .nat e.source), ("target", .nat e.target),
      ("label", Value.ofOption (fun l => .text l.text) e.label)]

def callValue (g : Calls.Graph) : Value :=
  .obj [("nodes", .list (g.nodes.map fun (n, k) => .obj [("id", .text n), ("kind", .optText k)])),
    ("edges", .list (g.listed.map fun e =>
      .obj [("source", .text e.caller), ("target", .text e.callee), ("type", .text e.kind.text)]))]

namespace Result

def counts (r : Result) (l : Layout) : Value :=
  .obj [("block_count", .nat l.sites.length), ("edge_count", .nat l.flow.edges.length),
    ("var_count", .nat ((r.ssa.map (·.definitions.length)).getD 0)),
    ("cg_node_count", .nat l.calls.nodes.length), ("cg_edge_count", .nat l.calls.edges.length)]

def baselineValue (c : Scan.BaselineCount) : Value :=
  .obj [("total", .nat (c.fresh + c.existing)), ("new", .nat c.fresh), ("existing", .nat c.existing),
    ("resolved", .nat 0)]

def flowValues (r : Result) : Fields :=
  if r.flows.isEmpty then []
  else ("taint_flows", .list (r.flows.map flowValue))
    :: (r.ssa.map fun s => ("taint_trace_meta", Value.obj [("versions", versionPlaces s)])).toList

def optional (k : String) (v : Option Value) : Fields := (v.map ((k, ·))).toList

/-- A result for the reports. A file that could not be read has only its errors. -/
def value (r : Result) : Value :=
  match r.layout with
  | none => .obj (if r.errors.isEmpty then [] else [("error", .text ("; ".intercalate r.errors))])
  | some l =>
    .obj ([("name", .text l.flow.name), ("stats", r.counts l),
        ("structure", .obj [("blocks", .list (l.sites.map (siteValue r.ssa))), ("edges", .list (edgeValues l.flow))]),
        ("call_graph", callValue l.calls), ("semgrep", r.semgrep),
        ("secrets", .list (r.secrets.map (·.value))), ("errors", .texts r.errors)]
      ++ optional "ir" r.ir ++ r.flowValues
      ++ optional "risk" (r.ranking.map (·.value)) ++ optional "routing" (r.routing.map (·.value))
      ++ optional "baseline" (r.baseline.map baselineValue))

end Result

end SecScan.Pipeline
