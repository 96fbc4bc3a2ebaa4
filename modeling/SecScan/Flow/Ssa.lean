import SecScan.Flow.Dominance

/-! Single-assignment form: every binding of a variable gets a version of its own, and where versions
meet a phi stands for whichever arrived. -/
namespace SecScan.Flow

open Syntax

/-- A version of a variable: the n-th that was made, or none that was bound before the use. -/
inductive Version where
  | made (var : String) (n : Nat)
  | undefined (var : String)
  deriving DecidableEq, Repr, Inhabited

def Version.text : Version → String
  | .made v n => v ++ "_" ++ toString n
  | .undefined v => v ++ "_undefined"

structure Occurrence where
  loc : Loc
  name : String
  ctx : Context
  deriving DecidableEq, Repr

mutual

/-- Names bound by a target; of containers their elements' names. -/
def targetNames : Expr → List Occurrence
  | .name l n c => [⟨l, n, c⟩]
  | .tuple _ es _ => targetsNames es
  | .list _ es _ => targetsNames es
  | _ => []

def targetsNames : List Expr → List Occurrence
  | [] => []
  | e :: es => targetNames e ++ targetsNames es

end

/-- Parts of a node in which names are read. The hint of a parameter is none. -/
def readChildren : Node → List Node
  | .arg _ => []
  | n => n.children

/-- The nodes of some levels, as far as names are read in them. -/
def readLevels : Nat → List Node → List Node
  | 0, _ => []
  | n + 1, level => level ++ readLevels n (level.flatMap readChildren)

def occurrence? : Node → Option Occurrence
  | .expr (.name l n c) => some ⟨l, n, c⟩
  | _ => none

def occurrencesIn (ns : List Node) (height : Nat) : List Occurrence := (readLevels height ns).filterMap occurrence?

namespace Item

/-- The parts whose names an item reads. A name that is assigned in place counts as bound only. -/
def readParts : Item → List Node
  | .stmt (.assign _ _ v _) => [.expr v]
  | .stmt (.annAssign _ _ _ v _) => Node.opt v
  | .stmt (.augAssign _ (.name ..) _ v) => [.expr v]
  | .stmt (.augAssign _ t _ v) => [.expr t, .expr v]
  | .stmt (.forLoop _ _ _ i _ _ _) => [.expr i]
  | .arg _ => []
  | .expr (.name _ _ .store) => []
  | .stmt s => [.stmt s]
  | .expr e => [.expr e]

/-- Names an item reads, level by level. -/
def reads (i : Item) : List Occurrence := occurrencesIn i.readParts i.node.height

/-- Names an assignment or a loop binds. -/
def assigned : Item → List Occurrence
  | .stmt (.assign _ ts _ _) => targetsNames ts
  | .stmt (.annAssign _ t _ _ _) => targetNames t
  | .stmt (.augAssign _ t _ _) => targetNames t
  | .stmt (.forLoop _ _ t _ _ _ _) => targetNames t
  | _ => []

/-- Names that get a new version: those of assignments, parameters, and a single name that a loop or
a context manager binds. -/
def binds : Item → List Occurrence
  | .arg (.mk l n _ _) => [⟨l, n, .store⟩]
  | .expr (.name l n .store) => [⟨l, n, .store⟩]
  | i => i.assigned

/-- Names for which phis are placed: those of assignments and parameters. -/
def recorded : Item → List String
  | .arg (.mk _ n _ _) => [n]
  | i => i.assigned.map (·.name)

end Item

/-- Which blocks bind a variable, in the order of first sight. -/
abbrev Definitions := List (String × List Nat)

def Definitions.ofGraph (g : Graph) : Definitions :=
  grouped (g.blocks.flatMap fun b => (b.items.flatMap Item.recorded).map fun v => (v, b.id))

/-- Blocks that get a phi for a variable: the frontiers of the blocks on the worklist, each new one
being worked through as well. -/
def placePhis (frontier : Nat → List Nat) : Nat → List Nat → List Nat → List Nat → List Nat
  | 0, _, _, phis => phis
  | _ + 1, [], _, phis => phis
  | fuel + 1, b :: work, defs, phis =>
    let new := (frontier b).filter fun u => !phis.contains u
    let unseen := new.filter fun u => !defs.contains u
    placePhis frontier fuel (work ++ unseen) (defs ++ unseen) (phis ++ new)

structure Phi where
  var : String
  result : Version
  operands : List (Nat × Version)
  deriving Inhabited

structure RenamedItem where
  item : Item
  reads : List (Occurrence × Version)
  writes : List (Occurrence × Version)

structure SsaBlock where
  id : Nat
  scope : String
  phis : List Phi
  items : List RenamedItem

abbrev Latest := List (String × Nat)

def Latest.version (e : Latest) (v : String) : Version :=
  match e.lookup v with
  | some n => .made v n
  | none => .undefined v

/-- Renaming in progress: the versions that hold here, and how many each variable has had. -/
structure Renaming where
  current : Latest
  counts : Latest

namespace Renaming

def bind (r : Renaming) (v : String) : Renaming × Version :=
  let n := (r.counts.lookup v).getD 0 + 1
  ({ current := putField v n r.current, counts := putField v n r.counts }, .made v n)

def bindAll (r : Renaming) : List Occurrence → Renaming × List (Occurrence × Version)
  | [] => (r, [])
  | o :: os =>
    let (r, v) := r.bind o.name
    let (r, rest) := r.bindAll os
    (r, (o, v) :: rest)

def item (r : Renaming) (i : Item) : Renaming × RenamedItem :=
  let reads := i.reads.map fun o => (o, r.current.version o.name)
  let (r, writes) := r.bindAll i.binds
  (r, { item := i, reads, writes })

def items (r : Renaming) : List Item → Renaming × List RenamedItem
  | [] => (r, [])
  | i :: is =>
    let (r, x) := r.item i
    let (r, xs) := r.items is
    (r, x :: xs)

def phis (r : Renaming) : List String → Renaming × List (String × Version)
  | [] => (r, [])
  | v :: vs =>
    let (r, x) := r.bind v
    let (r, xs) := r.phis vs
    (r, (v, x) :: xs)

end Renaming

structure Visit where
  block : Nat
  phis : List (String × Version)
  items : List RenamedItem
  final : Latest

mutual

/-- Renames a block and then those it dominates. What a block binds holds below it only; the counts
go on. -/
def renameTree (phiVars : Nat → List String) (items : Nat → List Item) (r : Renaming) : Tree → List Visit × Latest
  | .node b children =>
    let (r, phis) := r.phis (phiVars b)
    let (r, xs) := r.items (items b)
    let (below, counts) := renameForest phiVars items r children
    ({ block := b, phis, items := xs, final := r.current } :: below, counts)

def renameForest (phiVars : Nat → List String) (items : Nat → List Item) (r : Renaming) :
    List Tree → List Visit × Latest
  | [] => ([], r.counts)
  | t :: ts =>
    let (first, counts) := renameTree phiVars items r t
    let (rest, counts) := renameForest phiVars items { r with counts } ts
    (first ++ rest, counts)

end

structure Ssa where
  graph : Graph
  dominance : Dominance
  definitions : Definitions
  blocks : List SsaBlock

namespace Ssa

def block? (s : Ssa) (b : Nat) : Option SsaBlock := s.blocks.find? (·.id == b)

def phiBlocks (g : Graph) (t : Dominance) (d : Definitions) : List (String × List Nat) :=
  let frontiers := g.ids.map fun b => (b, t.frontier g b)
  let frontier (b : Nat) := (frontiers.lookup b).getD []
  d.map fun (v, bs) => (v, placePhis frontier (g.blocks.length + bs.length + 1) bs bs [])

/-- Operands of a phi: the versions at the end of the block's predecessors, in the order in which
these were renamed. -/
def operands (g : Graph) (visits : List Visit) (b : Nat) (v : String) : List (Nat × Version) :=
  (visits.filter fun x => (g.successors x.block).contains b).map fun x => (x.block, x.final.version v)

def phiVars (phis : List (String × List Nat)) (b : Nat) : List String := (phis.filter fun e => e.2.contains b).map (·.1)

def visits (g : Graph) (t : Dominance) (phis : List (String × List Nat)) : List Visit :=
  (renameTree (phiVars phis) g.itemsOf ⟨[], []⟩ (t.tree g.entry)).1

/-- A block with its versions. One that cannot be reached has none. -/
def renamed (g : Graph) (visits : List Visit) (b : Block) : SsaBlock :=
  match visits.find? (·.block == b.id) with
  | some x =>
    { id := b.id, scope := b.scope.name, items := x.items
      phis := x.phis.map fun (v, r) => { var := v, result := r, operands := operands g visits b.id v } }
  | none => { id := b.id, scope := b.scope.name, phis := [], items := b.items.map fun i => ⟨i, [], []⟩ }

def ofGraph (g : Graph) : Ssa :=
  let t := Dominance.ofGraph g
  let d := Definitions.ofGraph g
  let phis := phiBlocks g t d
  let visits := visits g t phis
  { graph := g, dominance := t, blocks := g.blocks.map (renamed g visits)
    definitions := d.map fun (v, bs) =>
      (v, bs ++ (((phis.lookup v).getD []).filter fun b => !bs.contains b)) }

def names (s : Ssa) : List (Occurrence × Version) :=
  s.blocks.flatMap fun b => b.items.flatMap fun i => i.reads ++ i.writes

def versions (s : Ssa) : List Version :=
  s.blocks.flatMap fun b => b.phis.map (·.result) ++ b.items.flatMap fun i => i.writes.map (·.2)

end Ssa

end SecScan.Flow
