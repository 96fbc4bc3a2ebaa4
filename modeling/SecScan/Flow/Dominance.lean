import SecScan.Flow.Graph

/-! Dominance in a control-flow graph, read off reachability: a block dominates those that cannot be
reached around it. -/
namespace SecScan.Flow

/-- Nodes met from a stack of nodes, without entering `stop`. -/
def explore (next : Nat → List Nat) (stop : List Nat) : Nat → List Nat → List Nat → List Nat
  | 0, _, seen => seen
  | _ + 1, [], seen => seen
  | fuel + 1, n :: stack, seen =>
    if seen.contains n || stop.contains n then explore next stop fuel stack seen
    else explore next stop fuel (next n ++ stack) (n :: seen)

namespace Graph

/-- Blocks that can be reached from a block without entering `stop`. Every edge is followed at most
once. -/
def reachFrom (g : Graph) (stop : List Nat) (start : Nat) : List Nat :=
  explore g.successors stop (g.edges.length + 2) [start] []

def reachable (g : Graph) : List Nat := g.reachFrom [] g.entry

/-- Depth-first search: a node is put in front of what was finished before it. -/
def finish (next : Nat → List Nat) : Nat → Nat → List Nat × List Nat → List Nat × List Nat
  | 0, _, st => st
  | fuel + 1, n, (seen, done) =>
    if seen.contains n then (seen, done)
    else
      let (seen, done) := (next n).foldl (fun st s => finish next fuel s st) (n :: seen, done)
      (seen, n :: done)

/-- Reachable blocks, each before those that a depth-first search finishes before it. -/
def reversePostorder (g : Graph) : List Nat := (finish g.successors (g.blocks.length + 1) g.entry ([], [])).2

end Graph

/-- Who dominates whom, for the reachable blocks of a graph. -/
structure Dominance where
  order : List Nat
  /-- Each block with the blocks it dominates. -/
  dominated : List (Nat × List Nat)

namespace Dominance

def ofGraph (g : Graph) : Dominance :=
  let all := g.reachable
  { order := g.reversePostorder
    dominated := all.map fun d =>
      let around := g.reachFrom [d] g.entry
      (d, all.filter fun b => !around.contains b) }

variable (t : Dominance)

def dominates (d b : Nat) : Bool :=
  match t.dominated.find? (·.1 == d) with
  | some (_, bs) => bs.contains b
  | none => false

def strictly (d b : Nat) : Bool := d != b && t.dominates d b

/-- The strict dominator of a block that all its strict dominators dominate. -/
def idom (b : Nat) : Option Nat :=
  let above := t.order.reverse.filter fun d => t.strictly d b
  above.find? fun d => above.all fun e => t.dominates e d

def children (b : Nat) : List Nat := t.order.filter fun c => t.idom c == some b

/-- Blocks entered from one that `b` dominates and not themselves strictly dominated by `b`. -/
def frontier (g : Graph) (b : Nat) : List Nat :=
  t.order.filter fun u => (g.predecessors u).any (t.dominates b) && !t.strictly b u

end Dominance

inductive Tree where
  | node (block : Nat) (children : List Tree)

def Tree.grow (children : Nat → List Nat) : Nat → Nat → Tree
  | 0, b => .node b []
  | fuel + 1, b => .node b ((children b).map (grow children fuel))

def Dominance.tree (t : Dominance) (b : Nat) : Tree :=
  let idoms := t.order.map fun c => (c, t.idom c)
  let children (b : Nat) := (idoms.filter fun e => e.2 == some b).map (·.1)
  Tree.grow children t.order.length b

end SecScan.Flow
