import SecScan.Data

/-! What identifies a finding from one run to the next. -/
namespace SecScan.Scan

inductive Position where
  | number (n : Int)
  | truth (b : Bool)
  deriving DecidableEq, Repr, Inhabited

namespace Position

def toInt : Position → Int
  | .number n => n
  | .truth b => if b then 1 else 0

def value : Position → Value
  | .number n => .int n
  | .truth b => .bool b

def text (p : Position) : String := p.value.display

/-- A number, or digits; digits that write no number are refused. -/
def read? (v : Value) : Try (Option Position) :=
  match v with
  | .int n => .ok (some (.number n))
  | .bool b => .ok (some (.truth b))
  | .text s => if Text.isDigits s then do return some (.number (← v.toWhole)) else .ok none
  | _ => .ok none

end Position

structure Fingerprint where
  rule : String
  file : String
  line : Position
  column : Position
  sink : String
  source : String
  codeHash : String
  deriving DecidableEq, Repr

def Fingerprint.text (f : Fingerprint) : String :=
  "|".intercalate [f.rule, f.file, f.line.text, f.column.text, f.sink, f.source, f.codeHash]

variable (finding : Value)

def ruleOf : String :=
  ((["rule_id", "check_id", "id"].filterMap fun k => (finding.get? k).bind (·.text?)).map
    Text.strip |>.find? (· != "")).getD "UNKNOWN"

def positionOf (key : String) : Try Position := do
  return (← Position.read? (finding.getD key .null)).getD (.number 1)

def endLineOf (start : Position) : Try Int := do
  match ← Position.read? (finding.getD "end_line" .null) with
  | some p => return p.toInt
  | none => match ← Position.read? (finding.getD "endLine" .null) with
    | some p => return p.toInt
    | none => match (finding.getD "end" .null).get? "line" with
      | some (.int n) => return n
      | some (.bool b) => return (Position.truth b).toInt
      | _ => return start.toInt

def noteOf (key : String) : Try String :=
  let own := finding.getD key .null
  if own.truthy then .ok own.display
  else
    let m := finding.getD "metadata" .null
    if !m.truthy then .ok ""
    else if m.isMap then let v := m.getD key .null; .ok (if v.truthy then v.display else "")
    else .error .noField

/-- The lines from one to another, both counted from one; what lies outside is left out. -/
def excerpt (lines : Value) (first last : Int) : Try (List Value) := do
  if !lines.truthy then return []
  let first := max first 1
  let count ← lines.size
  if count < first then return []
  let cut (l : List Value) := (l.drop (first - 1).toNat).take (min (max last first) count - first + 1).toNat
  match lines with
  | .list l => return cut l
  | .text s => return cut (s.toList.map fun c => .text c.toString)
  | _ => throw .wrongKind

def codeHash (lines : List Value) : Try String := do
  return Digest.sha256 ("\n".intercalate (← lines.mapM fun l => do return Text.stripRight (← l.asText "rstrip")))

def projectPath (cwd root file : String) : String :=
  let p := if Path.isAbsolute file then Path.relative (Path.absolute cwd root) (Path.normalize file) else file
  Text.replace p "\\" "/"

def fingerprint (cwd root : String) (finding file lines : Value) : Try Fingerprint := do
  unless finding.isMap do throw (finding.lacks "get")
  let line ← positionOf finding "line"
  let column ← positionOf finding "column"
  let sink ← noteOf finding "sink"
  let source ← noteOf finding "source"
  let codeHash ← codeHash (← excerpt lines line.toInt (← endLineOf finding line))
  match file with
  | .text path =>
    return { rule := ruleOf finding, file := projectPath cwd root path, line, column, sink, source, codeHash }
  | _ => throw .wrongKind

end SecScan.Scan
