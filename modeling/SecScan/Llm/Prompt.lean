import SecScan.Data

/-! The questions put to a model about the findings of a block of code. -/
namespace SecScan.Llm

structure Message where
  role : String
  content : String
  deriving DecidableEq, Repr, Inhabited

def Message.value (m : Message) : Value := .obj [("role", .text m.role), ("content", .text m.content)]

structure Question where
  findings : Value
  scope : Value
  startLine : Value := .null
  endLine : Value := .null
  snippet : Value
  file : Value
  phiNodes : Value := .list []
  defs : Value := .list []
  uses : Value := .list []

def systemRole : String :=
  "You are an expert Application Security Engineer specializing in Python security "
    ++ "analysis. Your goal is to reduce false positives by analyzing static analysis findings "
    ++ "within their execution context. Do not suggest importing or installing new libraries. "
    ++ "Return only valid JSON without markdown fences or extra text."

def instructions : List String :=
  ["1. Trace the data flow for variables involved in the findings.",
    "2. Determine if input validation or sanitization occurs before the sink.",
    "3. Classify each finding as 'True Positive', 'False Positive', or 'Needs Review'.",
    "4. If a finding is a True Positive, provide fix_suggestion and secure_code_snippet. "
      ++ "Preserve original indentation.",
    "5. If not vulnerable, set fix_suggestion and secure_code_snippet to null.",
    "6. IMPORTANT: Return ONLY valid JSON. No markdown code blocks around the JSON."]

def answerFormat : List String :=
  ["\x7b", "  \"analysis\": [", "    \x7b", "      \"check_id\": \"<id from findings>\",",
    "      \"verdict\": \"<classification>\",",
    "      \"rationale\": \"<concise explanation>\",",
    "      \"remediation\": \"<code fix or 'N/A'>\",",
    "      \"fix_suggestion\": \"<description or null>\",",
    "      \"secure_code_snippet\": \"<fixed code or null>\",",
    "      \"confidence_score\": 0.0,",
    "      \"risk_level\": \"LOW|MEDIUM|HIGH|CRITICAL|SAFE\",",
    "      \"reasoning_trace\": \"<short reasoning>\",",
    "      \"analysis_summary\": \"<concise summary>\"",
    "    \x7d",
    "  ]",
    "\x7d"]

def lineText (v : Value) : String := if v.truthy then v.display else "?"

def titled (title : String) (lines : List String) : List String := ("=== " ++ title ++ " ===") :: lines

def Question.text (q : Question) : Try String := do
  let findings ← Json.render (Json.indented 2) q.findings
  let defs ← Json.render (Json.indented 1) q.defs
  let uses ← Json.render (Json.indented 1) q.uses
  return String.intercalate "\n" (["Analyze the following security findings in the provided code snippet.", ""]
      ++ titled "CONTEXT" ["File: " ++ q.file.display, "Scope: " ++ q.scope.display,
        "Lines: " ++ lineText q.startLine ++ "-" ++ lineText q.endLine, ""]
      ++ titled "DATA FLOW (SSA)" ["Phi Nodes: " ++ q.phiNodes.display, "Definitions: " ++ defs, "Uses: " ++ uses, ""]
      ++ titled "FINDINGS" [findings, ""]
      ++ titled "CODE SNIPPET" ["\x60\x60\x60python", q.snippet.display, "\x60\x60\x60", ""]
      ++ titled "INSTRUCTIONS" (instructions ++ [""])
      ++ titled "OUTPUT FORMAT" answerFormat)

def Question.messages (q : Question) : Try (List Message) := do
  return [⟨"system", systemRole⟩, ⟨"user", ← q.text⟩]

/-- The first or last statement of a block, a map of its attributes. -/
def lineOf (statement : Option Value) (k : String) : Value := (statement.map (·.sub k)).getD .null

/-- A question put as a document: a block with its statements, a snippet, a file and what is known of
the variables. -/
def Question.ofValue (v : Value) : Try Question := do
  let block := v.sub "block"
  let context := v.getD "context" (.obj [])
  let statements ← (block.getD "statements" (.list [])).each
  unless statements.all (·.isMap) do throw .wrongKind
  return { findings := block.getD "findings" (.list []), scope := block.getD "scope" (.text "global")
           startLine := lineOf statements.head? "lineno", endLine := lineOf statements.getLast? "end_lineno"
           snippet := v.sub "snippet", file := v.sub "file"
           phiNodes := ← context.field "phi_nodes" (.list []), defs := ← context.field "defs" (.list [])
           uses := ← context.field "uses" (.list []) }

/-! Shortens a long text to its head and its tail. -/

structure Excerpt where
  maxChars : Value := .int 4000
  headRatio : Value := .float 0.6

def truncationMark : String := "\n...<truncated>...\n"

/-- The head and the tail of given lengths around the mark. A tail of no length is the whole text. -/
def excerptOf (head tail : Int) (s : String) : String :=
  Text.stripRight (Text.sliceTo s head) ++ truncationMark ++ Text.stripLeft (Text.sliceFrom s (-tail))

def place : Value → Try Int
  | .int n => .ok n
  | .bool b => .ok (if b then 1 else 0)
  | _ => .error .wrongKind

def Excerpt.apply (e : Excerpt) (text : Value) : Try Value := do
  if ← Value.atMost (.nat (← text.size)) e.maxChars then return text
  let head ← (← e.maxChars.times e.headRatio).toWhole
  let tail ← e.maxChars.minus (.int head)
  match text with
  | .text s => return .text (excerptOf head (← place tail) s)
  | .map _ => throw .wrongKind
  | v => throw (v.lacks "rstrip")

end SecScan.Llm
