import SecScan.Calls.Graph
import SecScan.Flow.Graph
import SecScan.Syntax.Source

/-! Summaries of functions: a function also has the side effects of what it calls. -/
namespace SecScan.Calls

/-! What a function takes, gives, calls and does. -/

open Syntax

structure Signature where
  name : String
  inputs : List (String × String)
  outputs : List String
  calls : List String
  /-- One more than the number of branching blocks. -/
  complexity : Nat
  sideEffects : List String
  deriving DecidableEq, Repr, Inhabited

def Signature.value (s : Signature) : Value :=
  .obj [("name", .text s.name),
      ("inputs", .list (s.inputs.map fun (n, t) => .obj [("name", .text n), ("type", .text t)])),
      ("outputs", .texts s.outputs), ("calls", .texts s.calls), ("complexity", .nat s.complexity),
      ("side_effects", .texts s.sideEffects), ("taint_sources", .list []), ("taint_sinks", .list [])]

/-- The name of what is called: an attribute with all it is taken from. -/
def calledName? : Node → Option String
  | .expr (.call _ (.name _ f _) _ _) => some f
  | .expr (.call _ f@(.attribute _ _ a _) _ _) => some (f.source.toOption.getD a)
  | _ => none

def callEffect? (f : String) : Option String :=
  if f == "print" || f == "open" || f == "write" then some ("io:" ++ f)
  else if Text.hasPrefix f "requests." || Text.hasPrefix f "urllib." then some ("net:" ++ f)
  else none

def globalEffects : Stmt → List String
  | .globalNames _ names => names.map ("global:write:" ++ ·)
  | _ => []

def sortedSet (l : List String) : List String := (l.mergeSort (· ≤ ·)).eraseDups

def hintText : Option Expr → Try String
  | none => .ok "Any"
  | some e => e.source

def inputsOf : Arguments → Try (List (String × String))
  | .mk _ args .. => args.mapM fun (.mk _ n hint _) => do return (n, ← hintText hint)

variable (flow : Flow.Graph)

def Signature.ofFunction (name : String) (args : Arguments) (body : List Stmt)
    (returns : Option Expr) (blocks : List Flow.Block) : Try Signature := do
  let inputs ← inputsOf args
  let output ← hintText returns
  let called := blocks.flatMap fun b => b.items.flatMap fun i => i.node.walk.filterMap calledName?
  let branching := blocks.filter fun b => 1 < flow.edges.countP (·.source == b.id)
  return { name, inputs, outputs := [output], calls := sortedSet called, complexity := branching.length + 1
           sideEffects := sortedSet (body.flatMap globalEffects ++ called.filterMap callEffect?) }

def scopeNames : List String := (flow.blocks.map (·.scope.name)).eraseDups

/-- The functions of a graph: where a scope is that of a function, what it takes, does and gives. -/
def functions : List (String × Arguments × List Stmt × Option Expr) :=
  ((scopeNames flow).filter (· != flow.name)).filterMap fun scope =>
    match flow.scopes.lookup scope with
    | some (.stmt (.funcDef _ _ _ args body _ returns _)) => some (scope, args, body, returns)
    | _ => none

/-- The signatures of the functions of a graph. Blocks belong to a function by its name. -/
def signatures : Try (List Signature) :=
  (functions flow).mapM fun (name, args, body, returns) =>
    Signature.ofFunction flow name args body returns (flow.blocks.filter (·.scope.name == name))

/-! What is called is summarized first. -/

variable (g : Graph)

/-- An order in which what is called comes first; there is none if calls form a circle. -/
def calleesFirst : Nat → List String → Option (List String)
  | _, [] => some []
  | 0, _ :: _ => none
  | n + 1, f :: fs =>
    let rest := f :: fs
    let ready := rest.filter fun f => (g.callees f).all (!rest.contains ·)
    if ready.isEmpty then none
    else (calleesFirst n (rest.filter (!ready.contains ·))).map (ready ++ ·)

def Graph.names : List String := g.nodes.map (·.1)

def Graph.order : List String := (calleesFirst g g.names.length g.names).getD g.names

def addEffects (old new : List String) : List String := new.foldl (fun l e => if l.contains e then l else l ++ [e]) old

/-- Adds the effects of the callees that were summarized before. -/
def summarizeOne (done : List (String × Signature)) (s : Signature) : Signature :=
  (g.callees s.name).foldl (fun s c =>
    match done.lookup c with
    | some t => { s with sideEffects := addEffects s.sideEffects t.sideEffects }
    | none => s) s

def summarizeAll (sigs : List Signature) (order : List String) : List (String × Signature) :=
  order.foldl (fun done f =>
    match sigs.find? (·.name == f) with
    | some s => done ++ [(f, summarizeOne g done s)]
    | none => done) []

def summaries (sigs : List Signature) : List (String × Signature) := summarizeAll g sigs g.order

/-! Whether a program is analyzed in full or only summarized. -/

structure Limits where
  maxNodes : Value := .int 2000
  maxLines : Value := .int 2000

def Limits.ofValue (v : Value) : Try Limits := do
  v.onlyFields ["max_nodes", "max_lines"]
  return ⟨v.getD "max_nodes" (.int 2000), v.getD "max_lines" (.int 2000)⟩

def Limits.decide (l : Limits) (nodes lines : Value) : Try String := do
  if ← nodes.more l.maxNodes then return "summarize"
  return if ← lines.more l.maxLines then "summarize" else "analyze"

end SecScan.Calls
