import SecScan.Syntax.Height

/-! Control-flow graphs: basic blocks of evaluated nodes, joined by labelled edges. Between two blocks
there is at most one edge. -/
namespace SecScan.Flow

open Syntax

/-- What a block evaluates: a flat statement, an expression of a compound statement, or a parameter
of a function. -/
inductive Item where
  | stmt (s : Stmt)
  | expr (e : Expr)
  | arg (a : Arg)
  deriving Inhabited

def Item.node : Item → Node
  | .stmt s => .stmt s
  | .expr e => .expr e
  | .arg a => .arg a

inductive Label where
  | entry | next | stop | true | false | asyncNext | asyncStop | asyncEnter | asyncExit | resume
  deriving DecidableEq, Repr

def Label.text : Label → String
  | .entry => "Entry"
  | .next => "Next"
  | .stop => "Stop"
  | .true => "True"
  | .false => "False"
  | .asyncNext => "AsyncNext"
  | .asyncStop => "AsyncStop"
  | .asyncEnter => "AsyncEnter"
  | .asyncExit => "AsyncExit"
  | .resume => "Resume"

/-- Where a block is made: under what name, and whether that is inside a function other than the one a
graph is built for. -/
structure Scope where
  name : String
  nested : Bool := false
  deriving Inhabited

structure Block where
  id : Nat
  scope : Scope
  items : List Item := []
  deriving Inhabited

structure Edge where
  source : Nat
  target : Nat
  label : Option Label
  deriving DecidableEq, Repr

structure Graph where
  name : String
  entry : Nat
  blocks : List Block := []
  edges : List Edge := []
  /-- The nodes that opened the named scopes; of one name the latest. -/
  scopes : List (String × Node) := []
  deriving Inhabited

namespace Graph

variable (g : Graph) (b : Nat)

def block? : Option Block := g.blocks.find? (·.id == b)

def ids : List Nat := g.blocks.map (·.id)

def itemsOf : List Item := ((g.block? b).map (·.items)).getD []

def outEdges : List Edge := g.edges.filter (·.source == b)

def successors : List Nat := (g.outEdges b).map (·.target)

def predecessors : List Nat := (g.edges.filter (·.target == b)).map (·.source)

def putEdge (e : Edge) : List Edge → List Edge
  | [] => [e]
  | e' :: rest =>
    if e'.source == e.source && e'.target == e.target then e :: rest else e' :: putEdge e rest

/-- Joins two blocks; an edge between them that is already there takes the new label. -/
def addEdge (source target : Nat) (label : Option Label) : Graph :=
  { g with edges := putEdge ⟨source, target, label⟩ g.edges }

def addBlock (b : Block) : Graph := { g with blocks := g.blocks ++ [b] }

def addItem (i : Item) : Graph :=
  { g with blocks := g.blocks.map fun x => if x.id == b then { x with items := x.items ++ [i] } else x }

end Graph

end SecScan.Flow
