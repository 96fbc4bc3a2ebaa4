import SecScan.Taint.Config

/-! Spreads taint from the results of source calls over assignments, phis and the regions that a
tainted condition controls. -/
namespace SecScan.Taint

open Syntax SecScan.Flow

/-- A tainted version, the source it comes from, and whether only a condition carried the taint. -/
structure Mark where
  version : Version
  source : String
  implicit : Bool
  deriving Repr

def isControl : Label → Bool
  | .true | .false | .next | .stop | .asyncNext | .asyncStop => true
  | _ => false

def controlSuccessors (g : Graph) (b : Nat) : List Nat :=
  ((g.outEdges b).filter fun e => e.label.any isControl).map (·.target)

def controlRegion (g : Graph) (succs : List Nat) : List Nat :=
  let sets := succs.map (g.reachFrom [])
  let joins := g.ids.filter fun b => sets.all (·.contains b)
  let inside := succs.map (g.reachFrom joins)
  g.ids.filter fun b => inside.any (·.contains b)

structure Use where
  block : Nat
  item : RenamedItem

variable (s : Ssa)

def uses (v : Version) : List Use :=
  s.blocks.flatMap fun b => b.items.flatMap fun i => (i.loads.filter (· == v)).map fun _ => ⟨b.id, i⟩

/-- Tainted versions in the order in which they were found. -/
abbrev Marks := List Mark

namespace Marks

def find (ms : Marks) (v : Version) : Option Mark := ms.find? (·.version == v)

def has (ms : Marks) (v : Version) : Bool := ms.any (·.version == v)

end Marks

/-- Taint on its way: the marks made so far, those of them that are still to be handed on, the blocks
whose assignments a source has reached through a condition, and the regions worked out so far. -/
structure Spread where
  marks : Marks := []
  pending : Marks := []
  controlled : List (Nat × String) := []
  regions : List (Nat × List Nat) := []

namespace Spread

variable (p : Spread)

def add (source : String) (implicit : Bool) (vs : List Version) : Spread :=
  vs.foldl (fun p v =>
      if p.marks.has v then p
      else
        let m : Mark := ⟨v, source, implicit⟩
        { p with marks := p.marks ++ [m], pending := p.pending ++ [m] })
    p

def addBlock (source : String) (b : SsaBlock) : Spread :=
  b.items.foldl (fun p i => p.add source true i.defines) p

/-- The region that the edges out of a block decide about. It is worked out once. -/
def region (g : Graph) (block : Nat) : List Nat × Spread :=
  match p.regions.lookup block with
  | some r => (r, p)
  | none =>
    let r := controlRegion g (controlSuccessors g block)
    (r, { p with regions := (block, r) :: p.regions })

variable (s : Ssa)

/-- Marks what a block assigns, unless the source has been there before. -/
def control (source : String) (p : Spread) (block : Nat) : Spread :=
  if p.controlled.contains (block, source) then p
  else
    let p := { p with controlled := (block, source) :: p.controlled }
    match s.block? block with
    | some b => p.addBlock source b
    | none => p

def controlAll (s : Ssa) (block : Nat) (source : String) : Spread :=
  let (region, p) := p.region s.graph block
  region.foldl (control s source) p

variable (c : Config)

def use (m : Mark) (p : Spread) (u : Use) : Spread :=
  if u.item.item.sanitizes c then p
  else
    let p := p.add m.source m.implicit u.item.defines
    if !u.item.item.isStmt && !(controlSuccessors s.graph u.block).isEmpty then
      p.controlAll s u.block m.source
    else p

def phi (m : Mark) (p : Spread) (f : Phi) : Spread :=
  if f.operands.any (·.2 == m.version) then p.add m.source m.implicit [f.result] else p

/-- Taint that a mark hands on: to its uses, then to the phis it is an operand of. -/
def handOn (p : Spread) (m : Mark) : Spread :=
  (s.blocks.flatMap (·.phis)).foldl (phi m) ((uses s m.version).foldl (use s c m) p)

def source (p : Spread) (i : RenamedItem) : Spread :=
  match i.item.source? c with
  | some name => p.add name false i.defines
  | none => p

/-- What source statements define, all of it still to be handed on. -/
def start : Spread := (s.blocks.flatMap (·.items)).foldl (source c) {}

/-- Hands the marks on, the first that waits first, those included that are made on the way. -/
def run : Nat → Spread → Spread
  | 0, p => p
  | fuel + 1, p =>
    match p.pending with
    | [] => p
    | m :: rest => run fuel ({ p with pending := rest }.handOn s c m)

end Spread

variable (c : Config)

def initial : Marks := (Spread.start s c).marks

/-- All tainted versions. Each is handed on once, so their number bounds the run. -/
def marks : Marks := ((Spread.start s c).run s c s.versions.length).marks

/-! Taint flows: for each tainted argument of a sink call, the ways back to where the taint began. -/

structure Span where
  line : Int
  col : Int
  endLine : Int
  endCol : Int
  deriving DecidableEq, Repr

def Span.ofLoc (l : Loc) : Span := ⟨l.line, l.col, l.endLine, l.endCol⟩

/-- A way of tainted data from a source to a sink. -/
structure Found where
  source : String
  sink : String
  path : List Version
  implicit : Bool
  span : Option Span
  deriving Repr

structure Flow where
  source : String
  sink : String
  path : List String := []
  implicit : Bool := false
  span : Option Span := none
  deriving DecidableEq, Repr, Inhabited

def Found.flow (f : Found) : Flow :=
  { source := f.source, sink := f.sink, path := f.path.map (·.text), implicit := f.implicit,
    span := f.span }

inductive Definition where
  | item (i : RenamedItem)
  | phi (p : Phi)

def definition? (v : Version) : Option Definition :=
  (s.blocks.flatMap fun b =>
    (b.phis.filter (·.result == v)).map Definition.phi ++
      (b.items.filter (·.defines.contains v)).map Definition.item).getLast?

def Definition.inputs : Definition → List Version
  | .item i => i.loads
  | .phi p => p.operands.map (·.2)

/-- Ways back from a version through tainted inputs, each starting where the taint began and ending
with `rest`. A version occurs once in a way. -/
def backward (ms : Marks) (sources : List Version) : Nat → Version → List Version → List (List Version)
  | 0, _, _ => []
  | fuel + 1, v, rest =>
    if rest.contains v || !ms.has v then []
    else if sources.contains v then [v :: rest]
    else
      match ((definition? s v).map (·.inputs)).getD [] |>.filter ms.has with
      | [] => [v :: rest]
      | inputs => inputs.flatMap fun u => backward ms sources fuel u (v :: rest)

def flowsInto (ms : Marks) (sources : List Version) (i : RenamedItem) : List Found :=
  match i.item.sink? c with
  | none => []
  | some sink => i.loads.flatMap fun v =>
    match ms.find v with
    | none => []
    | some m => (backward s ms sources (ms.length + 1) v []).map fun path =>
      { source := m.source, sink, path
        implicit := path.any fun x => (ms.find x).any (·.implicit)
        span := i.item.node.loc?.map Span.ofLoc }

def flows : List Found :=
  let ms := marks s c
  let sources := (initial s c).map (·.version)
  s.blocks.flatMap fun b => b.items.flatMap (flowsInto s c ms sources)

def analyze (g : Graph) (c : Config) : List Flow := (flows (Ssa.ofGraph g) c).map (·.flow)

end SecScan.Taint
