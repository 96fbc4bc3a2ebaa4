import SecScan.Data

/-! Call graphs: functions by name, with at most one edge between two of them. -/
namespace SecScan.Calls

inductive Kind where
  | direct | speculative | synthetic
  deriving DecidableEq, Repr, Inhabited

def Kind.text : Kind → String
  | .direct => "direct"
  | .speculative => "speculative"
  | .synthetic => "synthetic"

structure Edge where
  caller : String
  callee : String
  kind : Kind
  /-- What carries an implicit call. -/
  mechanism : Option String := none
  deriving DecidableEq, Repr, Inhabited

structure Graph where
  /-- Functions with their kinds, in the order of entry. -/
  nodes : List (String × Option String) := []
  edges : List Edge := []
  classes : List (String × List String) := []
  deriving Inhabited

namespace Graph

variable (g : Graph) (name : String)

def hasNode : Bool := g.nodes.any (·.1 == name)

def enter (kind : Option String) : Graph :=
  if g.hasNode name then g else { g with nodes := g.nodes ++ [(name, kind)] }

def addNode (kind : String := "function") : Graph := g.enter name (some kind)

def putEdge (e : Edge) : List Edge → List Edge
  | [] => [e]
  | x :: xs =>
    if x.caller == e.caller && x.callee == e.callee then
      { x with kind := e.kind, mechanism := e.mechanism.or x.mechanism } :: xs
    else x :: putEdge e xs

/-- Adds an edge. An edge that is there already takes the new kind. -/
def addEdge (e : Edge) : Graph :=
  let g := (g.enter e.caller none).enter e.callee none
  { g with edges := putEdge e g.edges }

def listed : List Edge := g.nodes.flatMap fun (n, _) => g.edges.filter (·.caller == n)

def callees (f : String) : List String := (g.edges.filter (·.caller == f)).map (·.callee)

def addClass (methods : List String) : Graph :=
  let old := (g.classes.lookup name).getD []
  let new := methods.foldl (fun l m => if l.contains m then l else l ++ [m]) old
  { g with classes := putField name new g.classes }

/-- The methods of that name, as `Class.method`. Up to a limit, which zero lifts. -/
def candidates (g : Graph) (method : String) (limit : Option Int) : List String :=
  let all := (g.classes.filter (·.2.contains method)).map (·.1 ++ "." ++ method)
  match limit with
  | none => all
  | some n => if n == 0 then all else all.take (max n 1).toNat

/-- Takes candidates until their number reaches a limit; one that is null, zero or empty is none. -/
def takeUpTo (limit : Value) (n : Nat) : List String → Try (List String)
  | [] => .ok []
  | c :: rest => do
    if limit.truthy then
      if ← limit.atMost (.nat n) then return [c]
    return c :: (← takeUpTo limit (n + 1) rest)

def candidatesFor (method limit : Value) : Try (List String) := do
  unless g.classes.isEmpty do method.requireFixed
  match method with
  | .text m => takeUpTo limit 1 (g.candidates m none)
  | _ => return []

def value : Value :=
  let nodes := g.nodes.mergeSort (·.1 ≤ ·.1)
  let edges := g.edges.mergeSort fun a b => a.caller < b.caller || (a.caller == b.caller && a.callee ≤ b.callee)
  .obj [("nodes", .list (nodes.map fun (n, k) => .list [.text n, .optText k])), ("edges", .list (edges.map fun e =>
        .list [.text e.caller, .text e.callee, .text e.kind.text, .optText e.mechanism])),
      ("classes", .list ((g.classes.mergeSort (·.1 ≤ ·.1)).map fun (c, ms) =>
        .list [.text c, .texts (ms.mergeSort (· ≤ ·))]))]

end Graph

end SecScan.Calls
