import SecScan.Flow.Ssa
import SecScan.Syntax.Decorator

/-! Flow graphs, versions and definitions of a module as documents. -/
namespace SecScan.Flow

open Value

def tagOf (n : Syntax.Node) : String :=
  n.kind ++ "@" ++ match n.loc? with
    | some l => toString l.line ++ ":" ++ toString l.col
    | none => "-1:-1"

def Graph.value (g : Graph) : Value :=
  .obj [("name", .text g.name), ("entry", .nat g.entry), ("blocks", rows (g.blocks.map fun b =>
      [.nat b.id, .text b.scope.name, .texts (b.items.map fun x => tagOf x.node)])),
    ("edges", sortedRows (g.edges.map fun e =>
      [.nat e.source, .nat e.target, ofOption (fun l => .text l.text) e.label])),
    ("scopes", sortedRows (g.scopes.map fun (n, x) => [.text n, .text x.kind]))]

def phiRow (b : Nat) (p : Phi) : List Value :=
  [.nat b, .text p.var, .text p.result.text, rows (p.operands.map fun (q, v) => [.nat q, .text v.text])]

def Ssa.value (s : Ssa) : Value :=
  let t := s.dominance
  .obj [("idom", sortedRows (t.order.map fun b => [.nat b, .nat ((t.idom b).getD b)])),
    ("frontiers", sortedRows (t.order.filterMap fun b =>
      match t.frontier s.graph b with
      | [] => none
      | l => some [.nat b, sortedNats l])),
    ("phis", rows (s.blocks.flatMap fun b => (b.phis.mergeSort fun p q => p.var ≤ q.var).map (phiRow b.id))),
    ("names", sortedRows (s.names.map fun (o, v) =>
      [.nat o.loc.line, .nat o.loc.col, .text o.name, .text v.text])),
    ("vars", sortedTexts (s.definitions.map (·.1))),
    ("defs", sortedRows (s.definitions.map fun (v, bs) => [.text v, sortedNats bs])),
    ("versions", sortedTexts (s.versions.map (·.text)))]

end SecScan.Flow

namespace SecScan.Syntax

open Value

/-- The decorators of all functions and classes, outermost definitions first. -/
def Module.decorators (m : Module) : Try (List Value) :=
  (Node.module m).walk.flatMapM fun n => match n with
    | .stmt (.funcDef _ _ name _ _ ds _ _) | .stmt (.classDef _ name _ _ _ ds) =>
      ds.mapM fun e => do
        let d ← Decorator.ofExpr e
        return .obj [("owner", .text name), ("metadata", d.value), ("is_route", .bool d.isRoute),
          ("route", ofOption id d.route?)]
    | _ => pure []

def Module.bodies (m : Module) : Value :=
  let tags (b : List Stmt) := texts (b.map fun s => Flow.tagOf (.stmt s))
  rows ((Node.module m).walk.filterMap fun n => match n with
    | .module m => some [.text "Module", .null, tags m.body]
    | .stmt (.funcDef _ _ name _ b ..) | .stmt (.classDef _ name _ _ b _) => some [.text n.kind, .text name, tags b]
    | _ => none)

end SecScan.Syntax
