import SecScan.Flow.Graph

/-! Blocks of a flow graph with what was found in them, and how findings get there. -/
namespace SecScan.Pipeline

structure Site where
  block : Flow.Block
  findings : List Value := []
  insights : List Value := []

def sitesOf (g : Flow.Graph) : List Site := g.blocks.map fun b => { block := b }

/-- Whether a reported path denotes a file: it leads there, or the absolute path of the file ends
in it. -/
def denotes (cwd file path : String) : Bool :=
  Path.absolute cwd path == Path.absolute cwd file || Text.hasSuffix (Path.absolute cwd file) path

variable (line : Value)

/-- Whether an item covers a line. Only numbers are lines. -/
def covers (i : Flow.Item) : Try Bool :=
  match i.node.loc? with
  | none => .ok false
  | some l => do
    if ← Value.atMost (.nat l.line) line then line.atMost (.nat l.endLine) else return false

def coveredBy : List Flow.Item → Try Bool
  | [] => .ok false
  | i :: rest => do if ← covers line i then return true else coveredBy rest

def blockAt : List Flow.Block → Try (Option Flow.Block)
  | [] => .ok none
  | b :: rest => do if ← coveredBy line b.items then return some b else blockAt rest

inductive Disposition where
  /-- It is of another file. -/
  | skipped
  /-- It is of this file and of no block. -/
  | unmapped
  | placed (block : Nat) (found : Value)

variable (cwd file : String)

def isElsewhere (path : Value) : Try Bool :=
  if !path.truthy then .ok false
  else match path with
    | .text p => .ok (!denotes cwd file p)
    | v => .error (.wrongKind (some ("expected str, bytes or os.PathLike object, not " ++ v.kindName)))

def disposition (blocks : List Flow.Block) (finding : Value) : Try Disposition := do
  if ← isElsewhere cwd file (← finding.field "path") then return .skipped
  let start ← finding.field "start" (.obj [])
  let line ← start.field "line"
  if !line.truthy then return .unmapped
  match ← blockAt line blocks with
  | none => return .unmapped
  | some b =>
    let extra ← finding.field "extra" (.obj [])
    return .placed b.id (.obj [("check_id", ← finding.field "check_id"),
      ("message", ← extra.field "message"), ("severity", ← extra.field "severity"), ("line", line),
      ("column", ← start.field "col")])

def placedIn (b : Nat) (l : List Disposition) : List Value :=
  l.filterMap fun
    | .placed c found => if c == b then some found else none
    | _ => none

def leftOver (l : List (Value × Disposition)) : List Value :=
  l.filterMap fun
    | (f, .unmapped) => some f
    | _ => none

/-- Findings that no block has can be added to a list only. -/
def requireRoom (report : Value) : Disposition → Try Unit
  | .unmapped => match report.getD "unmapped" (.list []) with
    | .list _ => .ok ()
    | v => .error (v.lacks "append")
  | _ => .ok ()

def withLeftOver (report : Value) (l : List Value) : Value :=
  match report.getD "unmapped" (.list []) with
  | .list old => report.put "unmapped" (.list (old ++ l))
  | _ => report

def place (sites : List Site) (report : Value) : Try (List Site × Value) := do
  if !report.truthy then return (sites, report)
  let findings ← report.field "results" (.list [])
  if !findings.truthy then return (sites, report)
  let l ← findings.each
  let ds ← l.mapM fun f => do
    let d ← disposition cwd file (sites.map (·.block)) f
    requireRoom report d
    return d
  return (sites.map fun s => { s with findings := s.findings ++ placedIn s.block.id ds },
    withLeftOver report (leftOver (l.zip ds)))

end SecScan.Pipeline
