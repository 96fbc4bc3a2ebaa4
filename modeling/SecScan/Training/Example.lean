import SecScan.Llm.Answer
import SecScan.Privacy.Masking
import SecScan.Syntax.Complaint
import SecScan.Syntax.Height

/-! Training examples: masked code with the analysis that is expected of it. -/
namespace SecScan.Training

open Syntax

/-- The parameters of all functions of a program count as reachable for users. -/
def sensitiveNames (m : Module) : List String :=
  ((Node.module m).walk.flatMap fun
    | .stmt (.funcDef _ _ _ args ..) => args.plainNames
    | _ => []).eraseDups

abbrev Reply := Try String

structure Teacher where
  replies : List Reply
  prompts : List String := []

def teacherPrompt (code topic : String) (vulnerable : Bool) : String :=
  String.intercalate "\n" ["You are a Senior Security Engineer. Analyze this Python code for " ++ topic ++ ".", "",
      "Code Snippet:", code, "",
      "Truth: The code is " ++ (if vulnerable then "VULNERABLE" else "SAFE") ++ ".", "", "Task:",
      "1. Provide a step-by-step reasoning trace in <thinking> tags.",
      "2. Output a valid JSON object describing the security status.",
      "3. Ensure 'is_vulnerable' matches the Truth.", "", "Output Schema:", "\x7b",
      "  \"is_vulnerable\": boolean,",
      "  \"risk_level\": \"LOW\"|\"MEDIUM\"|\"HIGH\"|\"CRITICAL\"|\"SAFE\",",
      "  \"analysis_summary\": \"string\",", "  \"fix_suggestion\": \"string\" or null,",
      "  \"secure_code_snippet\": \"string\" or null", "\x7d", "",
      "Do not use Markdown code blocks for the JSON. Start with <thinking>."]

def readLesson (reply : String) : Try (Option Value) := do
  match ← Json.readIfSound (Text.strip (Llm.unfenceMarked (Llm.splitReasoning reply).1)) with
  | none => return none
  | some v => return if ← v.mentions "is_vulnerable" then some v else none

def maxAttempts : Nat := 3

/-- Asks a teacher a few times; if no reply will do, an analysis that says so is taken. -/
def teach (prompt : String) (vulnerable : Bool) : Nat → Teacher → Try Value × Teacher
  | 0, t => (.ok (.obj [("analysis_summary", .text "Generation Failed"), ("is_vulnerable", .bool vulnerable)]), t)
  | n + 1, t =>
    let asked := { t with prompts := t.prompts ++ [prompt] }
    match t.replies with
    | [] => (.error .outOfRange, asked)
    | r :: rest =>
      let t := { asked with replies := rest }
      match r with
      | .error f => (.error f, t)
      | .ok text =>
        match readLesson text with
        | .error f => (.error f, t)
        | .ok (some v) => (.ok v, t)
        | .ok none => teach prompt vulnerable n t

def plainLesson (topic : String) (vulnerable : Bool) : Value :=
  .obj [("is_vulnerable", .bool vulnerable), ("confidence_score", .float 1.0),
      ("risk_level", .text (if vulnerable then "CRITICAL" else "SAFE")),
      ("reasoning_trace", .text ("Initial scan detected " ++ topic
        ++ " pattern. Verified lack of sanitization in data flow.")),
      ("analysis_summary", .text ("Code is " ++ (if vulnerable then "vulnerable" else "safe")
        ++ " regarding " ++ topic ++ ".")),
      ("fix_suggestion",
        if vulnerable then .text "Apply proper validation and sanitization." else .null),
      ("secure_code_snippet", .null),
      ("constraint_check", .obj [("syntax_valid", .bool true), ("logic_sound", .bool true)])]

def lesson (teacher : Option Teacher) (code topic : String) (vulnerable : Bool) : Try Value × Option Teacher :=
  match teacher with
  | none => (.ok (plainLesson topic vulnerable), none)
  | some t =>
    match teach (teacherPrompt code topic vulnerable) vulnerable maxAttempts t with
    | (.ok v, t) => (.ok (if v.truthy then v else plainLesson topic vulnerable), some t)
    | (.error f, t) => (.error f, some t)

variable (parse : String → Try Module)

/-- The masked code of an example; code that is no program gives none. -/
def maskedCode (code : String) : Try (Option String) :=
  match parse code with
  | .error (.unreadable r) => if syntaxFaults.contains r then .ok none else .error (.unreadable r)
  | .error f => .error f
  | .ok m => do return some (← Privacy.mask (.of true (sensitiveNames m)) m).1

def exampleInput (masked : String) (topic : Value) : Try String :=
  Json.render (Json.indented 2) (.obj [("function_signature", .text masked), ("vulnerability_type", topic),
      ("context", .obj [("sanitizers_found", .list [])])])

def makeExample (teacher : Option Teacher) (code : String)
    (topic : Value) (vulnerable : Bool) : Try (Option Value) × Option Teacher :=
  match maskedCode parse code with
  | .error f => (.error f, teacher)
  | .ok none => (.ok none, teacher)
  | .ok (some masked) =>
    match exampleInput masked topic with
    | .error f => (.error f, teacher)
    | .ok input =>
      let (out, teacher) := lesson teacher code topic.display vulnerable
      (out.map fun v => some (.obj
        [("instruction", .text ("Analyze the following Python code trace for " ++ topic.display
            ++ " vulnerabilities. Return logic in JSON.")),
          ("input_data", .text input), ("output_data", v)]), teacher)

def examplesOfRow (teacher : Option Teacher) (row : Value) :
    Try (List Value) × Option Teacher :=
  let topic := row.getD "vuln_type" (.text "Unknown Vulnerability")
  let step (acc : Try (List Value) × Option Teacher) (k : String × Bool) : Try (List Value) × Option Teacher :=
    let code := row.sub k.1
    match acc, code with
    | (.ok done, teacher), .text s =>
      if s == "" then acc
      else
        let (r, teacher) := makeExample parse teacher s topic k.2
        (r.map fun e => done ++ e.toList, teacher)
    | (.ok _, teacher), _ => if code.truthy then (.error .wrongKind, teacher) else acc
    | _, _ => acc
  if row.isMap then [("code_before", true), ("code_after", false)].foldl step (.ok [], teacher)
  else (.error .noField, teacher)

/-! Examples written as texts to train on. -/

def fieldText : Value → Try String
  | v@(.map _) => Json.render (Json.indented 2) v
  | v => .ok v.display

def trainingText (instruction input output : Value) : Try String := do
  return "### Instruction:\n" ++ instruction.display ++ "\n\n### Input:\n" ++ (← fieldText input)
    ++ "\n\n### Response:\n" ++ (← fieldText output)

def column (examples : Value) (keys : List String) : Try (List Value) :=
  ((keys.findSome? examples.get?).getD (.list [])).each

def trainingTexts (examples : Value) : Try (List String) := do
  unless examples.isMap do throw (examples.lacks "get")
  let instructions ← column examples ["instruction"]
  let inputs ← column examples ["input", "input_data"]
  let outputs ← column examples ["output", "output_data"]
  ((instructions.zip inputs).zip outputs).mapM fun ((a, b), c) => trainingText a b c

def trainingUnavailable : Fault :=
  .notInstalled (some ("Unsloth is required for training, but it is not available. "
    ++ "This usually means Unsloth or its dependencies are not installed, "
    ++ "or no compatible GPU is present. "
    ++ "On Colab, enable a GPU runtime and re-run the install cell."))

end SecScan.Training
