import SecScan.Training.Example

/-! Compares a model's answers with what was expected. -/
namespace SecScan.Training

def readAnswer (s : String) : Try (Option Value) := Json.readIfSound (Llm.unfence (Llm.splitReasoning s).1)

structure Tally where
  total : Nat
  valid : Nat := 0
  correct : Nat := 0
  truePositives : Nat := 0
  trueNegatives : Nat := 0
  falsePositives : Nat := 0
  falseNegatives : Nat := 0

def verdict (v : Value) : Try Value := v.field "is_vulnerable" (.bool false)

def Tally.count (t : Tally) (predicted truth : Value) : Tally :=
  let t := { t with valid := t.valid + 1 }
  if predicted.same truth then
    let t := { t with correct := t.correct + 1 }
    if truth.truthy then { t with truePositives := t.truePositives + 1 }
    else { t with trueNegatives := t.trueNegatives + 1 }
  else if predicted.truthy && !truth.truthy then { t with falsePositives := t.falsePositives + 1 }
  else if !predicted.truthy && truth.truthy then { t with falseNegatives := t.falseNegatives + 1 }
  else t

/-- What a client gave: a text, a map with a content, or a failure, which is passed over. -/
def replyText : Try Value → Try (Option String)
  | .error _ => .ok none
  | .ok (.text s) => .ok (some s)
  | .ok v@(.map _) =>
    match v.getD "content" (.text "") with
    | .text s => .ok (some s)
    | _ => .error .wrongKind
  | .ok _ => .error .wrongKind

def Tally.step (t : Tally) (reply : Try Value) (truth : Value) : Try Tally := do
  match ← replyText reply with
  | none => return t
  | some s =>
    match ← readAnswer s with
    | none | some .null => return t
    | some v => do
      let truth ← verdict truth
      return t.count (← verdict v) truth

def share (a b : Nat) : Float := if b == 0 then 0.0 else Float.ofNat a / Float.ofNat b

def Tally.value (t : Tally) : Value :=
  .obj [("total_samples", .nat t.total), ("json_validity_rate", .float (share t.valid t.total)),
      ("accuracy", .float (share t.correct t.total)),
      ("fpr", .float (share t.falsePositives (t.falsePositives + t.trueNegatives))),
      ("fnr", .float (share t.falseNegatives (t.falseNegatives + t.truePositives))),
      ("fix_rate", .float 0.0)]

/-- Evaluates the replies to a batch of examples; a reply that is missing counts as a failure. -/
def evaluate (replies : List (Try Value)) (expected : List Value) : Try Tally :=
  expected.zipIdx.foldlM (fun t (truth, i) => t.step (replies.getD i (.error .outOfRange)) truth)
    { total := expected.length }

end SecScan.Training
