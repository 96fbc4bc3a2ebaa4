import SecScan.Scan.Finding

/-! Findings that are known already: a run with a baseline reports only those that are new. -/
namespace SecScan.Scan

structure BaselineEntry where
  print : Fingerprint
  key : String := print.text
  created : String := ""

def BaselineEntry.value (e : BaselineEntry) : Value :=
  .obj [("fingerprint", .text e.key), ("rule_id", .text e.print.rule), ("file", .text e.print.file),
    ("line", e.print.line.value), ("column", e.print.column.value), ("sink", .text e.print.sink),
    ("source", .text e.print.source), ("code_hash", .text e.print.codeHash),
    ("created_at", .text e.created)]

structure Baseline where
  cwd : String
  root : String
  known : List String := []
  observed : List String := []
  fresh : Nat := 0
  existing : Nat := 0

def baselinePath (root : String) : String := Path.joinAll root [".nsss", "baseline.json"]

structure BaselineCount where
  fresh : Nat := 0
  existing : Nat := 0

namespace Baseline

def moment (now : Float) : String := Time.isoText (Time.ofSeconds now) ++ "Z"

def schema : Schema :=
  { fields := [("version", .null), ("generated_at", .null), ("project_root", .null), ("entries", .null)] }

/-- Takes over what a file holds and gives its version. Entries of a file carry no fingerprint of
their own and are refused. -/
def read (b : Baseline) (doc : Value) : Try (Value × Baseline) := do
  let doc ← schema.read .wrongKind doc
  match ← (doc.getD "entries" .null).each with
  | [] => return (doc.getD "version" .null, { b with known := [] })
  | _ => throw .noField

variable (b : Baseline)

/-- Reads the file, if there is one; an empty one and one that is no JSON hold nothing. -/
def load (file : Option String) : Try (Value × Baseline) :=
  let empty : Try (Value × Baseline) := .ok (.text "1.0", { b with known := [] })
  match file with
  | none => empty
  | some text =>
    if text.isEmpty then empty
    else do
      match ← Json.readIfSound text with
      | some doc => b.read doc
      | none => empty

def entry (now : Float) (file lines finding : Value) : Try BaselineEntry := do
  return { print := ← fingerprint b.cwd b.root finding file lines, created := moment now }

def entries (b : Baseline) (now : Float) (findings : List Value) (file lines : Value) : Try (List BaselineEntry) :=
  findings.mapM (b.entry now file lines)

def save (es : List BaselineEntry) : Baseline := { b with known := (es.map (·.key)).eraseDups }

def document (now : Float) (es : List BaselineEntry) : Value :=
  .obj [("version", .text "1.0"), ("generated_at", .text (moment now)),
    ("project_root", .text b.root), ("entries", .list (es.map (·.value)))]

/-- Notes that a finding was met; it is new unless its fingerprint is known. -/
def meet (key : String) : Bool × Baseline :=
  let isNew := !b.known.contains key
  (isNew, { b with observed := if b.observed.contains key then b.observed else b.observed ++ [key] })

def filterFrom (b : Baseline) (finding : α → Value) (file lines : Value) : List α → Try (List α) × Baseline
  | [] => (.ok [], b)
  | x :: rest =>
    match fingerprint b.cwd b.root (finding x) file lines with
    | .error e => (.error e, b)
    | .ok p =>
      let (isNew, b) := b.meet p.text
      let (r, b) := filterFrom b finding file lines rest
      (r.map fun l => if isNew then x :: l else l, b)

def filterBy (finding : α → Value) (xs : List α) (file lines : Value) : Try (List α × BaselineCount) × Baseline :=
  match filterFrom b finding file lines xs with
  | (.error e, b) => (.error e, b)
  | (.ok l, b) =>
    let c : BaselineCount := ⟨l.length, xs.length - l.length⟩
    (.ok (l, c), { b with fresh := b.fresh + c.fresh, existing := b.existing + c.existing })

def filter (findings : List Value) (file lines : Value) :
    Try (List Value × BaselineCount) × Baseline := b.filterBy id findings file lines

def resolved : Nat := (b.known.filter (!b.observed.contains ·)).length

def summary : Value :=
  .obj [("total", .nat b.known.length), ("new", .nat b.fresh), ("existing", .nat b.existing),
    ("resolved", .nat b.resolved)]

end Baseline

def BaselineCount.add (c d : BaselineCount) : BaselineCount := ⟨c.fresh + d.fresh, c.existing + d.existing⟩

def BaselineCount.value (c : BaselineCount) : Value := .obj [("new", .nat c.fresh), ("existing", .nat c.existing)]

end SecScan.Scan
