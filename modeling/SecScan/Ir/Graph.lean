import SecScan.Data

/-! The program graph: a node for every statement, block and expression, edges of control flow, and
the symbols with the nodes that define and use them. Nodes are referred to by `ρ`: by number while a
graph is made, by name once it is finished. -/
namespace SecScan.Ir

structure Span where
  file : String
  startLine : Int
  startCol : Int
  endLine : Int
  endCol : Int
  deriving DecidableEq, Repr, Inhabited

def Span.value (s : Span) : Value :=
  .obj [("file", .text s.file), ("start_line", .int s.startLine), ("start_col", .int s.startCol),
    ("end_line", .int s.endLine), ("end_col", .int s.endCol)]

/-- One entry of a node's description: plain data or references to nodes. -/
inductive Cell (ρ : Type) where
  | data (v : Value)
  | node (id : Option ρ)
  | nodes (ids : List (Option ρ))
  deriving Inhabited

inductive Attr (ρ : Type) where
  | cell (c : Cell ρ)
  | rows (rows : List (List (String × Cell ρ)))
  deriving Inhabited

structure Node (ρ : Type) where
  id : ρ
  kind : String
  span : Span
  parent : Option ρ
  scope : String
  attrs : List (String × Attr ρ)
  deriving Inhabited

structure Edge (ρ : Type) where
  source : ρ
  target : ρ
  kind : String
  guard : Option ρ
  deriving DecidableEq, Repr, Inhabited

structure Symbol (ρ : Type) where
  name : String
  kind : String
  scope : String
  defs : List ρ := []
  uses : List ρ := []
  deriving DecidableEq, Repr, Inhabited

structure Graph (ρ : Type) where
  nodes : List (Node ρ) := []
  edges : List (Edge ρ) := []
  symbols : List (Symbol ρ) := []
  deriving Inhabited

namespace Cell

def map (f : ρ → σ) : Cell ρ → Cell σ
  | .data v => .data v
  | .node id => .node (id.map f)
  | .nodes ids => .nodes (ids.map (·.map f))

def refs : Cell ρ → List ρ
  | .data _ => []
  | .node id => id.toList
  | .nodes ids => ids.filterMap id

def value : Cell String → Value
  | .data v => v
  | .node id => .optText id
  | .nodes ids => .list (ids.map .optText)

end Cell

namespace Attr

def map (f : ρ → σ) : Attr ρ → Attr σ
  | .cell c => .cell (c.map f)
  | .rows rs => .rows (rs.map (·.map fun (k, c) => (k, c.map f)))

def refs : Attr ρ → List ρ
  | .cell c => c.refs
  | .rows rs => rs.flatMap (·.flatMap fun e => e.2.refs)

def value : Attr String → Value
  | .cell c => c.value
  | .rows rs => .list (rs.map fun r => .obj (r.map fun (k, c) => (k, c.value)))

def data (v : Value) : Attr ρ := .cell (.data v)
def text (s : String) : Attr ρ := .cell (.data (.text s))
def texts (l : List String) : Attr ρ := .cell (.data (.texts l))
def flag (b : Bool) : Attr ρ := .cell (.data (.bool b))
def ref (id : ρ) : Attr ρ := .cell (.node (some id))
def opt (id : Option ρ) : Attr ρ := .cell (.node id)
def list (ids : List ρ) : Attr ρ := .cell (.nodes (ids.map some))

end Attr

namespace Node

def map (f : ρ → σ) (n : Node ρ) : Node σ :=
  { id := f n.id, kind := n.kind, span := n.span, parent := n.parent.map f, scope := n.scope,
    attrs := n.attrs.map fun (k, a) => (k, a.map f) }

variable (n : Node ρ) (k : String)

def attr? : Option (Attr ρ) := n.attrs.lookup k

def setAttr (a : Attr ρ) : Node ρ := { n with attrs := putField k a n.attrs }

def ref? : Option ρ :=
  match n.attr? k with
  | some (.cell (.node id)) => id
  | _ => none

def text? : Option String :=
  match n.attr? k with
  | some (.cell (.data v)) => v.text?
  | _ => none

def tags : List String :=
  match n.attr? "tags" with
  | some (.cell (.data v)) => v.items.filterMap Value.text?
  | _ => []

/-- Tags are kept without repetition. -/
def addTags (tags : List String) : Node ρ :=
  n.setAttr "tags" (.texts (tags.foldl (fun l t => if l.contains t then l else l ++ [t]) n.tags))

def attrsValue (n : Node String) : Value := .obj (n.attrs.map fun (k, a) => (k, a.value))

end Node

def Edge.map (f : ρ → σ) (e : Edge ρ) : Edge σ :=
  { source := f e.source, target := f e.target, kind := e.kind, guard := e.guard.map f }

def Symbol.map (f : ρ → σ) (s : Symbol ρ) : Symbol σ :=
  { name := s.name, kind := s.kind, scope := s.scope, defs := s.defs.map f, uses := s.uses.map f }

def Graph.map (f : ρ → σ) (g : Graph ρ) : Graph σ :=
  { nodes := g.nodes.map (·.map f), edges := g.edges.map (·.map f),
    symbols := g.symbols.map (·.map f) }

/-! A program graph seen as a graph with parallel edges: edges are grouped by their source, then by
their target, and numbered between each pair. -/

structure Arc where
  target : String
  edges : List (Edge String)

structure Multigraph where
  /-- Vertices in the order of their first mention; ends of edges without a node are vertices too. -/
  vertices : List (String × Option (Node String)) := []
  arcs : List (String × List Arc) := []

namespace Multigraph

def enter (id : String) (n : Option (Node String)) (m : Multigraph) : Multigraph :=
  if m.vertices.any (·.1 == id) then
    match n with
    | none => m
    | some n => { m with vertices := m.vertices.map fun v => if v.1 == id then (id, some n) else v }
  else { m with vertices := m.vertices ++ [(id, n)] }

def enterArc (e : Edge String) : List Arc → List Arc
  | [] => [⟨e.target, [e]⟩]
  | a :: as =>
    if a.target == e.target then { a with edges := a.edges ++ [e] } :: as else a :: enterArc e as

def enterEdge (m : Multigraph) (e : Edge String) : Multigraph :=
  let m := enter e.target none (enter e.source none m)
  { m with arcs := putField e.source (enterArc e ((m.arcs.lookup e.source).getD [])) m.arcs }

def ofGraph (g : Graph String) : Multigraph :=
  let m := g.nodes.foldl (fun m n => enter n.id (some n) m) {}
  g.edges.foldl enterEdge m

/-- All edges with their numbers, in the order of the vertices they start from. -/
def edges (m : Multigraph) : List (Edge String × Nat) :=
  m.vertices.flatMap fun v => ((m.arcs.lookup v.1).getD []).flatMap fun a => a.edges.zipIdx

end Multigraph

/-! Graphs listed as rows. -/

def Span.row (s : Span) : Value := .list [.int s.startLine, .int s.startCol, .int s.endLine, .int s.endCol]

def sortedTags (n : Node String) : Node String :=
  if (n.attr? "tags").isSome then n.setAttr "tags" (.texts (n.tags.mergeSort (· ≤ ·))) else n

def Node.row (n : Node String) : Value :=
  .list [.text n.id, .text n.kind, n.span.row, .optText n.parent, .text n.scope, (sortedTags n).attrsValue]

def Edge.row (e : Edge String) : Value := .list [.text e.source, .text e.target, .text e.kind, .optText e.guard]

def Symbol.row (s : Symbol String) : Value :=
  .list [.text s.name, .text s.kind, .text s.scope, .texts s.defs, .texts s.uses]

def Graph.value (g : Graph String) : Value :=
  .obj [("nodes", .list (g.nodes.map Node.row)), ("edges", .list (g.edges.map Edge.row)),
    ("symbols", .list (g.symbols.map Symbol.row))]

def Graph.multigraphValue (g : Graph String) : Value :=
  let m := Multigraph.ofGraph g
  .obj [("nodes", .list (m.vertices.map fun (id, n) =>
        .list [.text id, .optText (n.map (·.kind)), .optText (n.map (·.scope))])),
      ("edges", .list (m.edges.map fun (e, k) =>
        .list [.text e.source, .text e.target, .nat k, .text e.kind, .optText e.guard])),
      ("symbols", .list (g.symbols.map fun s =>
        .list [.text s.name, .text s.kind, .text s.scope, .nat s.defs.length, .nat s.uses.length]))]

end SecScan.Ir
