import SecScan.Ir.Graph

/-! Finds calls that reach a system call under another name. Names are followed in source order, and
a scope sees its own bindings before those of the module. -/
namespace SecScan.Ir

def systemCalls : List String :=
  ["os.system", "os.popen", "subprocess.call", "subprocess.run", "subprocess.Popen", "subprocess.check_output"]

/-- What a scope has learned so far: the names that stand for others, and the names that were
imported. -/
structure Bindings where
  aliases : List (String × String) := []
  known : List String := []

abbrev Scopes := List (String × Bindings)

namespace Scopes

variable (scopes : Scopes) (scope : String)

def bindings : Bindings := (scopes.lookup scope).getD {}

def chain : List String :=
  if scope == "scope:module" then [scope] else [scope, "scope:module"]

def alias? (scope name : String) : Option String :=
  (chain scope).findSome? fun s => (scopes.bindings s).aliases.lookup name

def isImported (scope name : String) : Bool := (chain scope).any fun s => (scopes.bindings s).known.contains name

def bind (scope name target : String) : Scopes :=
  let b := scopes.bindings scope
  putField scope { b with aliases := putField name target b.aliases } scopes

def learn (scope target : String) : Scopes :=
  let b := scopes.bindings scope
  if b.known.contains target then scopes
  else putField scope { b with known := b.known ++ [target] } scopes

/-- Enters a path that is known from now on, and the name that stands for it, if there is one. -/
def tell (name : Option String) (path : String) : Scopes :=
  let learned := scopes.learn scope path
  name.elim learned (learned.bind scope · path)

def tellAll (l : List (Option String × String)) : Scopes :=
  l.foldl (fun scopes t => scopes.tell scope t.1 t.2) scopes

/-- The dotted beginnings of a path, shortest first. -/
def beginnings (path : String) : List String :=
  let parts := Text.split path "."
  (List.range parts.length).map fun i => String.intercalate "." (parts.take (i + 1))

/-- Some beginning of the path is known to the innermost scope that knows any name at all. -/
def isKnown (scope path : String) : Bool :=
  match ((chain scope).map fun s => (scopes.bindings s).known).find? (!·.isEmpty) with
  | some known => (beginnings path).any known.contains
  | none => false

variable (p : String × List String)

/-- What a name with attributes denotes under the aliases of a scope, and whether an alias was followed. -/
def denotes : String × Bool :=
  let known := scopes.alias? scope p.1
  let base := known.getD p.1
  (String.intercalate "." (base :: p.2), if p.2.isEmpty then known.isSome else base != p.1)

/-- What such a value stands for when it is assigned: a plain name has to be an alias or imported. -/
def meant : Option String :=
  let (path, aliased) := scopes.denotes scope p
  if p.2.isEmpty && !aliased && !scopes.isImported scope path then none else some path

end Scopes

/-- A name followed by attributes, read off the nodes. The fuel bounds the number of attributes. -/
def attributePath (nodes : Array (Node Nat)) : Nat → Nat → Option (String × List String)
  | 0, _ => none
  | fuel + 1, i => do
    let n ← nodes[i]?
    if n.kind == "Name" then return (← n.text? "name", [])
    else if n.kind == "Attribute" then
      let (root, attrs) ← attributePath nodes fuel (← n.ref? "value_id")
      return (root, attrs ++ [← n.text? "attr"])
    else none

variable (nodes : Array (Node Nat)) (n : Node Nat)

def pathAt (k : String) : Option (String × List String) :=
  (n.ref? k).bind (attributePath nodes nodes.size)

def namesAt (k : String) : List Value :=
  match n.attr? k with
  | some (.cell (.data v)) => v.items
  | _ => []

def filled : Value → Option String
  | .text "" => none
  | .text s => some s
  | _ => none

/-- What an import tells: the paths that it makes known, each with the name that stands for it. A module imported
under its own name needs none. -/
def importTells : List (Option String × String) :=
  let module := (n.text? "module").filter (· != "")
  ((namesAt n "names").zip (namesAt n "asnames")).filterMap fun (name, asName) =>
    match name, module with
    | .text name, some m => some ((filled asName).getD name, m ++ "." ++ name)
    | .text name, none => some (filled asName, name)
    | _, _ => none

def assignTargets : List String :=
  match n.attr? "targets" with
  | some (.cell (.data v)) => v.items.filterMap filled
  | _ => ((n.text? "target").filter (· != "")).toList

def assignTells (scopes : Scopes) (n : Node Nat) : List (Option String × String) :=
  match (pathAt nodes n "value_id").bind (scopes.meant n.scope) with
  | none => []
  | some path => if scopes.isKnown n.scope path then (assignTargets n).map (some ·, path) else []

def tells (scopes : Scopes) (n : Node Nat) : List (Option String × String) :=
  if n.kind == "Import" then importTells n else if n.kind == "Assign" then assignTells nodes scopes n else []

def learnNode (scopes : Scopes) (n : Node Nat) : Scopes := scopes.tellAll n.scope (tells nodes scopes n)

def markNode (scopes : Scopes) (n : Node Nat) : Node Nat :=
  match if n.kind == "Call" then pathAt nodes n "callee_id" else none with
  | none => n
  | some p =>
    let (path, aliased) := scopes.denotes n.scope p
    if systemCalls.contains path && (aliased || !p.2.isEmpty) then
      (n.setAttr "resolved_callee" (.text path)).addTags (if aliased then ["sink", "alias"] else ["sink"])
    else n

def resolveFrom (scopes : Scopes) : List (Node Nat) → List (Node Nat)
  | [] => []
  | n :: rest => markNode nodes scopes n :: resolveFrom (learnNode nodes scopes n) rest

def Graph.resolveAliases (g : Graph Nat) : Graph Nat := { g with nodes := resolveFrom g.nodes.toArray [] g.nodes }

end SecScan.Ir
