import SecScan.Data

/-! Reads the records that a model answers with. -/
namespace SecScan.Llm

open Text

def fence : String := "\x60\x60\x60"

def dropStart (s start : String) : String :=
  if hasPrefix s start then drop start.length s else s

def dropEnd (s tail : String) : String :=
  if hasSuffix s tail then take (s.length - tail.length) s else s

variable (s : String)

def unfence : String :=
  strip (dropEnd (dropStart (dropStart (strip s) (fence ++ "json")) fence) fence)

def unfenceMarked : String := dropEnd (dropStart s (fence ++ "json")) fence

def unfenceOnce : String :=
  let s := strip s
  let s := if hasPrefix s (fence ++ "json") then dropStart s (fence ++ "json")
    else dropStart s fence
  strip (dropEnd s fence)

def analysisData : Schema :=
  ⟨[("is_vulnerable", .null), ("confidence_score", .null), ("risk_level", .null),
    ("reasoning_trace", .null), ("analysis_summary", .null), ("fix_suggestion", .null),
    ("secure_code_snippet", .null), ("constraint_check", .null)], []⟩

def analysisRequest : Schema :=
  ⟨[("function_signature", .null), ("language", .text "python"), ("vulnerability_type", .null),
    ("context", .null), ("privacy_mask", .null), ("metadata", .null)], []⟩

def analysisResponse : Schema :=
  ⟨[("status", .null), ("data", .null), ("error_code", .null), ("message", .null), ("processing_time_ms", .null)], []⟩

def badText : Fault := .invalid (some s)

def decode (schema : Schema) (s : String) : Try Value :=
  match Json.read (unfence s) with
  | .error .notJson => .error (badText "Failed to parse JSON output")
  | .error e => .error e
  | .ok v => schema.read (badText "Output does not match schema") v

def decodeStrict (schema : Schema) (s : String) : Try Value :=
  let s := strip s
  if hasPrefix s fence then
    .error (badText "Strict JSON required: markdown fences detected")
  else if !(hasPrefix s "\x7b" && hasSuffix s "\x7d") then
    .error (badText "Strict JSON required: must be a JSON object")
  else
    match Json.read s with
    | .error .notJson => .error (badText "Invalid JSON")
    | .error e => .error e
    | .ok v => schema.read (badText "Schema mismatch") v

/-! Takes a model's reasoning out of its answer. -/

open Text Text.Pattern

def thinking : Pattern := seqs [litAnyCase "<thinking>", .group 1 (lazyStar anyChar), litAnyCase "</thinking>"]

/-- The answer without all reasoning, and the first reasoning. -/
def splitReasoning : String × String :=
  match thinking.search s with
  | none => (s, "")
  | some (_, m) => (strip (thinking.removeAll s), strip ((groupText? s m 1).getD ""))

/-! Refuses answers that ask for new software. -/

def bannedByDefault : List String := ["import ", "pip install", "apt-get", "brew install"]

/-- The words that are refused; an empty choice stands for the usual ones. -/
def bannedWords (choice : Value) : Try (List String) := do
  if !choice.truthy then return bannedByDefault
  (← choice.each).mapM fun v => do return lower (← v.asText "lower")

def checkAnswer (banned : List String) (answer : Value) : Try Unit := do
  let s := lower (← answer.asText "lower")
  match banned.find? (holds s) with
  | some t => throw (.invalid (some ("Hallucination guard triggered: '" ++ strip t ++ "'")))
  | none => return ()

end SecScan.Llm
