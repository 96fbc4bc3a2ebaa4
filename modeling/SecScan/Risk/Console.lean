import SecScan.Risk.Ranking

/-! Scripts for sanitizers, flows as documents, and rankings asked for by documents. -/
namespace SecScan.Taint

abbrev SanitizerTable := List (Value × SanitizerKind)

def SanitizerTable.default : SanitizerTable := Sanitizers.default.map fun (f, k) => (.text f, k)

variable (v : Value)

def kindNamed : Try SanitizerKind := do
  v.requireFixed
  match v.text?.bind SanitizerKind.ofText? with
  | some k => return k
  | none => throw .noKey

def SanitizerTable.console : Console SanitizerTable := .timeless fun s _ name args =>
  let kind? (f : Value) : Try (Option SanitizerKind) := do
    f.requireFixed
    return Value.under? f s
  match name, args with
  | "is", [f] => ((kind? f).map fun k => .bool k.isSome, s)
  | "type", [f] => ((kind? f).map (Value.ofOption fun k => .text k.text), s)
  | "register", [f, k] => keeping s (do let k ← kindNamed k; f.requireFixed; return k) fun k =>
    (.ok .null, Value.enter f k s)
  | _, _ => (.error (misused ["is", "type", "register"] name), s)

/-- The names given, or the usual ones if none are. -/
def Config.ofValue : Try Config := do
  if v.has "sources" || v.has "sinks" || v.has "sanitizers" then
    let names (k : String) := namesIn (v.getD k (.list []))
    return ⟨← names "sources", ← names "sinks", ← names "sanitizers"⟩
  return .usual

def Flow.row (f : Flow) : List Value :=
  [.text f.source, .text f.sink, .texts f.path, .bool f.implicit,
    Value.ofOption (fun s => .list [.int s.line, .int s.col, .int s.endLine, .int s.endCol]) f.span]

end SecScan.Taint

namespace SecScan.Risk

variable (v : Value)

def table (k operation : String) (d : Fields) : Try Fields :=
  let given := v.sub k
  if !given.truthy then .ok d
  else if given.isMap then .ok given.fields
  else .error (given.lacks operation)

def Trail.schema : Schema :=
  { fields := [("source", .null), ("sink", .null), ("path", .list []), ("implicit", .bool false),
      ("sink_span", .null)] }

def Trail.ofValue : Try Trail := do
  let v ← Trail.schema.read .wrongKind v
  return ⟨v.sub "source", v.sub "sink", v.sub "path", v.sub "implicit"⟩

def Ranker.ofValue : Try Ranker := do
  let feedback ← match v.get? "feedback" with
    | none | some .null => pure none
    | some l => (do Feedback.Store.ofRequests (← l.each)).map some
  let weights ← normalize (← table v "weights" "values" signalWeights)
  return { sources := ← table v "source_sensitivity" "items" sourceSensitivity
           sinks := ← table v "sink_sensitivity" "items" sinkSensitivity, weights, feedback }

def levelsOf : Try (List Level) :=
  match v.sub "levels" with
  | .null => .ok modelLevels
  | l => do (← l.each).mapM fun x => match x.text?.bind Level.ofText? with
    | some y => .ok y
    | none => .error .invalid

def rankingOf : Answer := do
  let some flows := v.get? "flows" | throw .noKey
  let trails ← (← flows.each).mapM Trail.ofValue
  let ranker ← Ranker.ofValue v
  let levels ← levelsOf v
  let r ← ranker.rankTrails trails
  return .obj [("weights", .obj ranker.weights), ("rank", r.value), ("routing", (route levels r).value)]

end SecScan.Risk
