import SecScan.Ir.Graph
import SecScan.Syntax.Constant

/-! Program graphs as they are stored: records whose fields can hold anything. -/
namespace SecScan.Store

/-- Where a node stands: a place in a file, or whatever was read instead. -/
inductive Place where
  | known (file : Value) (s : Ir.Span)
  | unread (v : Value)

namespace Place

def value : Place → Value
  | .known file s => s.value.put "file" file
  | .unread v => v

/-- The file of a node, if it has one; of a place that was only read it cannot be told. -/
def file? : Place → Try (Option Value)
  | .known file _ => .ok (if file.truthy then some file else none)
  | .unread v => if v.truthy then .error .noField else .ok none

end Place

structure Node where
  id : Value := .null
  kind : Value := .null
  place : Place := .unread .null
  parent : Value := .null
  container : Value := .null
  attrs : Value := .obj []

structure Edge where
  source : Value := .null
  target : Value := .null
  kind : Value := .null
  guard : Value := .null

structure Symbol where
  name : Value := .null
  kind : Value := .null
  container : Value := .null
  defs : Value := .list []
  uses : Value := .list []

structure Graph where
  nodes : List Node := []
  edges : List Edge := []
  symbols : List Symbol := []

namespace Node

def value (n : Node) : Value :=
  .obj [("id", n.id), ("kind", n.kind), ("span", n.place.value), ("parent_id", n.parent),
    ("scope_id", n.container), ("attrs", n.attrs)]

def schema : Schema :=
  ⟨[("id", .null), ("kind", .null), ("span", .null), ("parent_id", .null), ("scope_id", .null),
    ("attrs", .obj [])], []⟩

def ofValue (v : Value) : Try Node := do
  let r ← schema.read .noField v
  return { id := r.sub "id", kind := r.sub "kind", place := .unread (r.sub "span")
           parent := r.sub "parent_id", container := r.sub "scope_id", attrs := r.sub "attrs" }

def ofIr (n : Ir.Node String) : Node :=
  { id := .text n.id, kind := .text n.kind, place := .known (.text n.span.file) n.span, parent := .optText n.parent
    container := .text n.scope, attrs := n.attrsValue }

end Node

namespace Edge

def value (e : Edge) : Value :=
  .obj [("from", e.source), ("to", e.target), ("type", e.kind), ("guard_id", e.guard)]

/-- The source may stand under either of two names, the last counting. -/
def schema : Schema :=
  ⟨[("from_id", .null), ("to", .null), ("type", .null), ("guard_id", .null)], [("from", "from_id")]⟩

def ofValue (v : Value) : Try Edge := do
  let r ← schema.read .noField v
  return { source := r.sub "from_id", target := r.sub "to", kind := r.sub "type", guard := r.sub "guard_id" }

def ofIr (e : Ir.Edge String) : Edge :=
  { source := .text e.source, target := .text e.target, kind := .text e.kind, guard := .optText e.guard }

def key (e : Edge) : Value := .tuple [e.source, e.target, e.kind, e.guard]

end Edge

namespace Symbol

def value (s : Symbol) : Value :=
  .obj [("name", s.name), ("kind", s.kind), ("scope_id", s.container), ("defs", s.defs), ("uses", s.uses)]

def schema : Schema :=
  ⟨[("name", .null), ("kind", .null), ("scope_id", .null), ("defs", .list []), ("uses", .list [])], []⟩

def ofValue (v : Value) : Try Symbol := do
  let r ← schema.read .noField v
  return { name := r.sub "name", kind := r.sub "kind", container := r.sub "scope_id"
           defs := r.sub "defs", uses := r.sub "uses" }

def ofIr (s : Ir.Symbol String) : Symbol :=
  { name := .text s.name, kind := .text s.kind, container := .text s.scope, defs := .texts s.defs
    uses := .texts s.uses }

def key (s : Symbol) : Value := .tuple [s.name, s.kind, s.container]

end Symbol

namespace Graph

def ofIr (g : Ir.Graph String) : Graph :=
  { nodes := g.nodes.map .ofIr, edges := g.edges.map .ofIr, symbols := g.symbols.map .ofIr }

variable (g : Graph)

def isEmpty : Bool := g.nodes.isEmpty && g.edges.isEmpty && g.symbols.isEmpty

def value : Value :=
  .obj [("nodes", .list (g.nodes.map (·.value))), ("edges", .list (g.edges.map (·.value))),
    ("symbols", .list (g.symbols.map (·.value)))]

def counts : Value := .list [.nat g.nodes.length, .nat g.edges.length, .nat g.symbols.length]

def placeRow : Place → Try Value
  | .known _ s => .ok s.row
  | .unread _ => .error .noField

/-- The graph as rows; places that were only read cannot be shown. -/
def rows : Try Value := do
  let nodes ← g.nodes.mapM fun n => do
    return .list [n.id, n.kind, ← placeRow n.place, n.parent, n.container, n.attrs]
  return .obj [("nodes", .list nodes),
    ("edges", .list (g.edges.map fun e => .list [e.source, e.target, e.kind, e.guard])),
    ("symbols", .list (g.symbols.map fun s => .list [s.name, s.kind, s.container, s.defs, s.uses]))]

/-! Merging and splitting -/

def enterNew (key : α → Value) (known : List α) (x : α) : Try (List α) :=
  if !Syntax.isHashable (key x) then .error .wrongKind
  else .ok (if known.any fun y => (key y).same (key x) then known else known ++ [x])

/-- Adds what is not known yet: nodes by their names, edges and symbols by what they connect. -/
def merge (g h : Graph) : Try Graph := do
  return { nodes := ← h.nodes.foldlM (enterNew (·.id)) g.nodes
           edges := ← h.edges.foldlM (enterNew (·.key)) g.edges
           symbols := ← h.symbols.foldlM (enterNew (·.key)) g.symbols }

def mergeAll (gs : List Graph) : Try Graph := gs.foldlM merge {}

def requireKey (v : Value) : Try Unit :=
  if Syntax.isHashable v then .ok () else .error .wrongKind

def placed? (n : Node) : Try (Option (Node × Value)) := do
  match ← n.place.file? with
  | none => return none
  | some f =>
    requireKey n.id
    requireKey f
    return some (n, f)

variable (placed : List (Node × Value))

def fileIn (id : Value) : Try (Option Value) := do
  requireKey id
  return ((placed.filter (·.1.id.same id)).getLast?).map (·.2)

/-- Those of the given nodes that stand in a file. -/
def idsIn (f ids : Value) : Value :=
  .list ((ids.each.toOption.getD []).filter fun id => ((fileIn placed id).toOption.join).any (·.same f))

/-- A graph per file. Edges between files are dropped; a symbol is in each file that defines or
uses it, with the nodes there. -/
def split : Try (List (Value × Graph)) := do
  let placed := (← g.nodes.mapM placed?).filterMap id
  let edges ← g.edges.mapM fun e => return (e, [← fileIn placed e.source, ← fileIn placed e.target])
  let symbols ← g.symbols.mapM fun s => return (s, ← (← (← s.defs.plus s.uses).each).mapM (fileIn placed))
  return ((placed.map (·.2)).eraseDupsBy Value.same).map fun f => (f,
    { nodes := (placed.filter (·.2.same f)).map (·.1)
      edges := (edges.filter (·.2.all (·.any (·.same f)))).map (·.1)
      symbols := (symbols.filter (·.2.any (·.any (·.same f)))).map fun (s, _) =>
        { s with defs := idsIn placed f s.defs, uses := idsIn placed f s.uses } })

end Graph

end SecScan.Store
