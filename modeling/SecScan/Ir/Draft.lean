import SecScan.Ir.Graph
import SecScan.Syntax.Node

/-! A program graph in the making. Nodes are numbered in the order of their making, which is their
place in the graph. -/
namespace SecScan.Ir

open Syntax

structure Draft where
  nodes : Array (Node Nat) := #[]
  edges : Array (Edge Nat) := #[]
  symbols : Array (Symbol Nat) := #[]
  scopeCount : Nat := 0
  /-- The latest statement of each scope. -/
  latest : List (String × Nat) := []
  fault : Option Fault := none
  deriving Inhabited

/-- The loop that a break or a continue belongs to. -/
structure Loop where
  head : Nat
  exit : Nat
  guard : Nat

/-- Where in the program the making stands, and its settings. -/
structure Env where
  file : String
  literalLimit : Value := .int 200
  detect : String → Try (Option String × Float)
  scope : String := "scope:module"
  loop : Option Loop := none

abbrev Make := StateM Draft

def spanAt (file : String) : Option Loc → Span
  | none => ⟨file, -1, -1, -1, -1⟩
  | some l => ⟨file, l.line, l.col, l.endLine, l.endCol⟩

/-- Adds a node; its number is the count of the nodes before it. -/
def addNode (env : Env) (kind : String) (loc : Option Loc) (parent : Option Nat) (scope : String)
    (attrs : List (String × Attr Nat)) : Make Nat := do
  let id := (← get).nodes.size
  let node : Node Nat := { id, kind, span := spanAt env.file loc, parent, scope, attrs }
  modify fun d => { d with nodes := d.nodes.push node }
  return id

def setAttr (id : Nat) (k : String) (a : Attr Nat) : Make Unit :=
  modify fun d => { d with nodes := d.nodes.modify id (·.setAttr k a) }

def addEdge (source target : Nat) (kind : String) (guard : Option Nat) : Make Unit :=
  modify fun d => { d with edges := d.edges.push { source, target, kind, guard } }

def setLatest (scope : String) (id : Nat) : List (String × Nat) → List (String × Nat) := putField scope id

/-- Control goes from the scope's latest statement to this one. -/
def flowTo (env : Env) (id : Nat) : Make Unit := do
  match (← get).latest.lookup env.scope with
  | some prev => addEdge prev id "flow" none
  | none => pure ()
  modify fun d => { d with latest := setLatest env.scope id d.latest }

variable (name kind scope : String)

/-- Changes the symbol of a scope, which is entered first if it is new. -/
def touchSymbol (f : Symbol Nat → Symbol Nat) : Make Unit :=
  modify fun d =>
    match d.symbols.findIdx? fun s => s.scope == scope && s.name == name with
    | some i => { d with symbols := d.symbols.modify i f }
    | none =>
      let s : Symbol Nat := { name, kind, scope }
      { d with symbols := d.symbols.push (f s) }

def addDef (id : Nat) : Make Unit :=
  touchSymbol name kind scope fun s => { s with defs := s.defs ++ [id] }

def addUse (id : Nat) : Make Unit :=
  touchSymbol name kind scope fun s => { s with uses := s.uses ++ [id] }

def newScope (env : Env) (label : String) : Make String := do
  modify fun d => { d with scopeCount := d.scopeCount + 1 }
  return env.scope ++ ":" ++ label ++ ":" ++ toString (← get).scopeCount

def note (f : Fault) : Make Unit := modify fun d => { d with fault := d.fault.or (some f) }

/-- The result of a step that may fail; a fault is noted and a default takes its place. -/
def attempt (default : α) : Try α → Make α
  | .ok a => return a
  | .error f => do note f; return default

def nodeName (n : Node Nat) : String :=
  String.intercalate ":" [n.kind, n.span.file, toString n.span.startLine, toString n.span.startCol, toString n.id]

def Draft.finish (d : Draft) : Try (Graph Nat) :=
  match d.fault with
  | some f => .error f
  | none => .ok { nodes := d.nodes.toList, edges := d.edges.toList, symbols := d.symbols.toList }

def Graph.named (g : Graph Nat) : Graph String :=
  let names := (g.nodes.map nodeName).toArray
  g.map fun i => names.getD i ""

end SecScan.Ir
