import SecScan.Flow.Graph

/-! Builds the control-flow graph of a module or of one of its statements. The body of a function has
blocks of its own that nothing leads to, unless the function is what the graph is built for. The
`else` part of a loop has no blocks. -/
namespace SecScan.Flow

open Syntax

/-- A graph under construction: how many blocks were made so far, the block that is being filled and
the scope it belongs to. -/
structure Builder where
  graph : Graph
  count : Nat
  current : Nat
  scope : Scope
  /-- The edges as they were given, in order. -/
  given : List Edge := []

namespace Builder

variable (b : Builder)

/-- Makes a block of some scope; its id is the new count. -/
def newBlock (scopes : List (String × Node)) (scope : Scope) (current : Nat) : Builder :=
  { b with
    graph := { b.graph with scopes }.addBlock { id := b.count + 1, scope }
    count := b.count + 1
    current
    scope }

def fresh : Builder := b.newBlock b.graph.scopes b.scope b.current

def edge (source target : Nat) (label : Option Label := none) : Builder :=
  { b with graph := b.graph.addEdge source target label, given := b.given ++ [⟨source, target, label⟩] }

def moveTo (block : Nat) : Builder := { b with current := block }

def add (i : Item) : Builder := { b with graph := b.graph.addItem b.current i }

def addAll (is : List Item) : Builder := is.foldl add b

/-- A new block behind the current one, which then becomes the current one. -/
def advance (label : Option Label := none) : Builder :=
  let b' := b.fresh
  (b'.edge b.current b'.count label).moveTo b'.count

def currentEmpty : Bool :=
  match b.graph.block? b.current with
  | some x => x.items.isEmpty
  | none => true

def hasAwait (n : Node) : Bool := n.walk.any fun
  | .expr (.await ..) => true
  | _ => false

/-- A statement that awaits stands alone in its block, and the next one resumes after it. -/
def flat (s : Stmt) : Builder :=
  if hasAwait (.stmt s) then
    let b := if b.currentEmpty then b else b.advance
    (b.add (.stmt s)).advance (some .resume)
  else b.add (.stmt s)

def withItems (items : List WithItem) : List Item :=
  items.flatMap fun w => .expr w.context :: (w.vars.map Item.expr).toList

def params : Arguments → List Item
  | .mk _ args .. => args.map .arg

def openFunction (name : String) (owner : Stmt) (linked : Bool) : Builder :=
  let c := b.newBlock (putField name (.stmt owner) b.graph.scopes) ⟨name, b.scope.nested || !linked⟩ (b.count + 1)
  if linked then c.edge b.current (b.count + 1) (some .entry) else c

def enterFunction (name : String) (owner : Stmt) (args : Arguments) (linked : Bool) : Builder :=
  (b.openFunction name owner linked).addAll (params args)

variable (outer : Builder)

/-- Goes on behind a function definition, in the scope and from the block that it stands in. -/
def leaveFunction : Builder :=
  let b := { b with scope := outer.scope }.fresh
  (b.edge outer.current b.count (some .next)).moveTo b.count

/-- The header of a loop behind the current block, the blocks of its body and of what follows it.
Filling goes on in the body. -/
def openLoop (header : List Item) (enter leave : Label) : Builder :=
  (((b.advance.addAll header).fresh.fresh.edge (b.count + 1) (b.count + 2) (some enter)).edge
    (b.count + 1) (b.count + 3) (some leave)).moveTo (b.count + 2)

/-- Leads the end of a loop's body back to the header, and goes on behind the loop. -/
def closeLoop : Builder := (b.edge b.current (outer.count + 1)).moveTo (outer.count + 3)

/-- Adds a test and makes some blocks, the first of them for what follows if the test holds, the second
for what follows if it does not, and the last for where the branches join. Filling goes on in the first. -/
def fork (test : Expr) (blocks : Nat) : Builder :=
  ((Nat.repeat fresh blocks (b.add (.expr test))).edge b.current (b.count + 1) (some .true)).moveTo
    (b.count + 1)

/-- Leads from the end of the first branch to the join and from the test to what follows if it does not
hold. Filling goes on there. -/
def turn (blocks : Nat) : Builder :=
  ((b.edge b.current (outer.count + blocks)).edge outer.current (outer.count + 2) (some .false)).moveTo
    (outer.count + 2)

def meet : Builder := (b.edge b.current (outer.count + 3)).moveTo (outer.count + 3)

mutual

def stmt (b : Builder) : Stmt → Builder
  | .funcDef l a name args bdy ds r tc =>
    let inner := b.enterFunction name (.funcDef l a name args bdy ds r tc) args false
    (body inner bdy).leaveFunction b
  | .classDef _ _ _ _ bdy _ => body b bdy
  | .cond _ test thenPart [] => (body (b.fork test 2) thenPart).turn b 2
  | .cond _ test thenPart (s :: rest) => (body ((body (b.fork test 3) thenPart).turn b 3) (s :: rest)).meet b
  | .whileLoop _ test bdy _ => (body (b.openLoop [.expr test] .true .false) bdy).closeLoop b
  | .forLoop _ isAsync target iter bdy _ _ =>
    (body (b.openLoop [.expr target, .expr iter] (if isAsync then .asyncNext else .next)
      (if isAsync then .asyncStop else .stop)) bdy).closeLoop b
  | .withBlock _ isAsync items bdy _ =>
    let b := b.addAll (withItems items)
    if isAsync then (body (b.advance (some .asyncEnter)) bdy).advance (some .asyncExit)
    else body b bdy
  | .matchOn _ _ cs => cases b cs
  | .tryBlock _ _ bdy hs orelse final => body (body (handlers (body b bdy) hs) orelse) final
  | s@(.assign ..) => b.flat s
  | s@(.augAssign ..) => b.flat s
  | s@(.annAssign ..) => b.flat s
  | s@(.expr ..) => b.flat s
  | s@(.ret ..) => b.flat s
  | .delete .. | .raise .. | .assert .. | .importNames .. | .importFrom .. | .globalNames ..
  | .nonlocalNames .. | .pass _ | .breakLoop _ | .continueLoop _ => b

def body (b : Builder) : List Stmt → Builder
  | [] => b
  | s :: rest => body (stmt b s) rest

def handlers (b : Builder) : List Handler → Builder
  | [] => b
  | .mk _ _ _ bdy :: rest => handlers (body b bdy) rest

def cases (b : Builder) : List MatchCase → Builder
  | [] => b
  | .mk _ _ bdy :: rest => cases (body b bdy) rest

end

/-- Starts a graph for a node: a name, an entry block and the scope that the name opens. -/
def start (count : Nat) (name : String) (root : Node) : Builder :=
  let b : Builder :=
    { graph := { name, entry := count + 1, scopes := [(name, root)] }, count, current := 0,
      scope := ⟨name, false⟩ }
  let b := b.fresh
  b.moveTo b.count

def root : Node → Builder
  | .module m => body b m.body
  | .stmt (.funcDef l a name args bdy ds r tc) =>
    let inner := b.enterFunction name (.funcDef l a name args bdy ds r tc) args true
    (body inner bdy).leaveFunction b
  | .stmt s => stmt b s
  | _ => b

end Builder

/-- The graph of a node, block ids counting on from `count`, and the new count. -/
def Graph.buildFrom (count : Nat) (name : String) (root : Node) : Graph × Nat :=
  let b := (Builder.start count name root).root root
  (b.graph, b.count)

def Graph.build (name : String) (root : Node) : Graph := (Graph.buildFrom 0 name root).1

end SecScan.Flow
