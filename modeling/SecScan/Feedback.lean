import SecScan.Telemetry.Metrics

/-! What users said about findings. A finding is known by a digest of what identifies it, and the
answers are kept in a JSON file. -/
namespace SecScan.Feedback

structure Item where
  id : Value := .null
  kind : Value := .null
  adjustedScore : Value := .null
  comment : Value := .null
  user : Value := .text "system"
  timestamp : Value := .null
  deriving Inhabited

def Item.value (i : Item) : Value :=
  .obj [("id", i.id), ("feedback_type", i.kind), ("adjusted_score", i.adjustedScore),
    ("comment", i.comment), ("user_id", i.user), ("timestamp", i.timestamp)]

def Item.schema : Schema :=
  { fields := [("id", .null), ("feedback_type", .null), ("adjusted_score", .null), ("comment", .null),
      ("user_id", .text "system"), ("timestamp", .null)] }

def Item.ofValue? (v : Value) : Try Item := do
  let v ← Item.schema.read .wrongKind v
  let get (k : String) := v.getD k .null
  return ⟨get "id", get "feedback_type", get "adjusted_score", get "comment", get "user_id", get "timestamp"⟩

def kinds : List String := ["FALSE_POSITIVE", "TRUE_POSITIVE", "ADJUST_RISK", "IGNORE"]

/-- What identifies a finding: its check and, where known, its ends, its file and its line. -/
def signatureKey (checkId metadata : Value) : Try String := do
  let part (label key : String) : Try (List String) := do
    return ((← metadata.mentioned? key).map fun v => label ++ ":" ++ v.display).toList
  return String.intercalate "|" (checkId.display :: (← part "source" "source") ++ (← part "sink" "sink")
    ++ (← part "file" "file_path") ++ (← part "line" "line"))

def signature (checkId metadata : Value) : Try String := do
  return Digest.sha256 (← signatureKey checkId metadata)

structure Store where
  items : List (String × Item) := []
  file : String := "\x7b\x7d"

namespace Store

def readItems (text : String) : Try (List (String × Item)) := do
  if text.isEmpty then return []
  match ← Json.readIfJson text with
  | none => return []
  | some (.map es) => (Value.fields (.map es)).mapM fun (k, v) => do return (k, ← Item.ofValue? v)
  | some v => throw (v.lacks "items")

variable (s : Store)

/-- Reads the file again. A file that is no JSON counts as empty. -/
def load : Try Store := do return { s with items := ← readItems s.file }

def ofFile (text : String) : Try Store := load { file := text }

def save : Store :=
  let v := Value.obj (s.items.map fun (k, i) => (k, i.value))
  match Json.write { indent := some 2 } v with
  | .ok t => { s with file := t }
  | .error _ => s

def get? (sig : String) : Option Item := s.items.lookup sig

def set (sig : String) (i : Item) : Store := save { s with items := putField sig i s.items }

end Store

structure Request where
  checkId : Value
  metadata : Value
  kind : String
  comment : Value := .null
  adjustedScore : Value := .null

def add (s : Store) (m : Telemetry.Metrics) (r : Request) : Try (Item × Store × Telemetry.Metrics) := do
  let sig ← signature r.checkId r.metadata
  let i : Item := { id := .text sig, kind := .text r.kind, comment := r.comment, adjustedScore := r.adjustedScore }
  let m := if r.kind == "TRUE_POSITIVE" || r.kind == "FALSE_POSITIVE" then m.trackFeedback r.kind else m
  return (i, s.set sig i, m)

/-! Scripts for what users say. -/

def Request.schema : Schema :=
  { fields := [("check_id", .null), ("metadata", .null), ("feedback_type", .null), ("comment", .null),
      ("adjusted_score", .null)] }

def Request.ofValue (v : Value) : Try Request := do
  let kind ← match v.get? "feedback_type" with
    | some (.text k) => if kinds.contains k then pure k else throw .invalid
    | some _ => throw .invalid
    | none => throw (if v.isMap then .noKey else .wrongKind)
  let v ← Request.schema.read .wrongKind v
  let get (k : String) := v.getD k .null
  return ⟨get "check_id", get "metadata", kind, get "comment", get "adjusted_score"⟩

def Item.row (f : Item) : List Value := [f.id, f.kind, f.adjustedScore, f.comment, f.user]

def Store.ofRequests (l : List Value) : Try Store :=
  l.foldlM (fun s r => do return (← add s {} (← Request.ofValue r)).2.1) {}

structure Desk where
  store : Store := {}
  metrics : Telemetry.Metrics := {}

def Desk.ofValue (v : Value) : Try Desk := do
  match v.get? "file" with
  | some (.text t) => return { store := ← Store.ofFile t }
  | _ => return {}

def Desk.view (d : Desk) : Answer := do
  return Value.rows ((← Value.sortOn (·.id) (d.store.items.map (·.2))).map (·.row))

def Desk.console : Console Desk := (Console.timeless fun d _ name args => match name, args with
  | "add", [r] => keeping d (Request.ofValue r >>= add d.store d.metrics) fun (f, s, m) =>
    (.ok (.list f.row), ⟨s, m⟩)
  | "get", [c, m] => (do
      return Value.ofOption (fun f => .list f.row) (d.store.get? (← signature c m)), d)
  | "signature", [c, m] => ((signature c m).map .text, d)
  | "load", _ => keeping d d.store.load fun s => (.ok .null, { d with store := s })
  | "metrics", _ => (.ok d.metrics.feedback.value, d)
  | _, _ => (.error (misused ["add", "get", "signature"] name), d)).showing Desk.view

end SecScan.Feedback
