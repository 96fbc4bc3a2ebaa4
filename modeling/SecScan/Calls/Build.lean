import SecScan.Calls.Graph
import SecScan.Flow.Graph

/-! Call graphs of programs. A call of a method may reach every class that has the method. -/
namespace SecScan.Calls

open Syntax

def methodName? : Stmt → Option String
  | .funcDef _ _ name .. => some name
  | _ => none

variable (g : Graph) (root : Node)

def Graph.addDefinitions : Graph :=
  root.preorder.foldl (fun g n =>
    match n with
    | .stmt (.classDef _ name _ _ body _) => g.addClass name (body.filterMap methodName?)
    | _ => g) g

def maxCandidates : Int := 5

inductive Target where
  | function (name : String)
  | method (name : String)

def target? : Node → Option Target
  | .expr (.call _ (.name _ f _) _ _) => some (.function f)
  | .expr (.call _ (.attribute _ _ m _) _ _) => some (.method m)
  | _ => none

def Graph.addCall (caller : String) : Target → Graph
  | .function f => (g.addNode f).addEdge { caller, callee := f, kind := .direct }
  | .method m =>
    match g.candidates m maxCandidates with
    | [] => (g.addNode ("?." ++ m) "external").addEdge { caller, callee := "?." ++ m, kind := .direct }
    | l => l.foldl (fun g c => (g.addNode c "method").addEdge { caller, callee := c, kind := .speculative }) g

/-- Adds the calls of all blocks; the caller is the scope of the block. -/
def Graph.addFlow (flow : Flow.Graph) : Graph :=
  flow.blocks.foldl (fun g b =>
    (b.items.flatMap fun i => i.node.preorder.filterMap target?).foldl
      (fun g t => g.addCall b.scope.name t) (g.addNode b.scope.name))
    (g.addNode flow.name)

/-! Calls that go through a message queue or a signal: who publishes reaches who subscribed. -/

/-- The nodes down to a depth, with the function around each of them. -/
def scopedTo : Nat → String → Node → List (String × Node)
  | d, scope, n =>
    let inner := match n with
      | .stmt (.funcDef _ _ name ..) => name
      | _ => scope
    match d with
    | 0 => [(inner, n)]
    | d + 1 => (inner, n) :: n.children.flatMap (scopedTo d inner)

def withScopes : List (String × Node) := scopedTo root.height "global" root

def simpleName? : Expr → Option String
  | .name _ n _ => some n
  | .attribute _ _ a _ => some a
  | _ => none

/-- A constant as text, or a name; the empty text counts as absent. -/
def keyText? : Expr → Option String
  | .constant _ v _ => if v.display == "" then none else some v.display
  | e => simpleName? e

def keywordText? (name : String) (keywords : List Keyword) : Option String :=
  (keywords.find? fun | .mk _ n _ => n == some name).bind fun | .mk _ _ v => keyText? v

/-- A channel: a queue by its key or a signal by its name. -/
inductive Channel where
  | queue (key : String)
  | signal (name : String)
  deriving DecidableEq, Repr

def Channel.mechanism : Channel → String
  | .queue _ => "mq"
  | .signal _ => "signal"

def subscription? : Node → Option (Channel × String)
  | .expr (.call _ (.attribute _ receiver m _) args keywords) =>
    if m == "basic_consume" then do
      return (.queue (← keywordText? "queue" keywords), ← keywordText? "on_message_callback" keywords)
    else if m == "connect" then do
      return (.signal (← simpleName? receiver), ← args.head?.bind simpleName?)
    else none
  | _ => none

def publication? : Node → Option Channel
  | .expr (.call _ (.attribute _ receiver m _) _ keywords) =>
    if m == "basic_publish" then (keywordText? "routing_key" keywords).map .queue
    else if m == "send" then (simpleName? receiver).map .signal
    else none
  | _ => none

abbrev Subscribers := List (Channel × List String)

def subscribers : Subscribers := grouped (root.preorder.filterMap subscription?)

def Graph.addImplicit : Graph :=
  let subs := subscribers root
  (withScopes root).foldl (fun g (caller, n) =>
    match publication? n with
    | none => g
    | some c => ((subs.lookup c).getD []).foldl (fun g h =>
        g.addEdge { caller, callee := h, kind := .synthetic, mechanism := some c.mechanism }) g) g

def Subscribers.queues (s : Subscribers) : List (String × List String) :=
  s.filterMap fun | (.queue k, hs) => some (k, hs) | _ => none

def Subscribers.signals (s : Subscribers) : List (String × List String) :=
  s.filterMap fun | (.signal k, hs) => some (k, hs) | _ => none

end SecScan.Calls
