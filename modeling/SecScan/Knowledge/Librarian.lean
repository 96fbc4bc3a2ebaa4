import SecScan.Llm.Answer
import SecScan.Packages.Version

/-! A store of what is known: decisions of the model, kinds of weaknesses, remedies, and profiles
of libraries. -/
namespace SecScan.Knowledge

/-! Tables whose columns hold texts. -/

/-- A text or nothing. -/
abbrev Cell := Option String

def Cell.value (c : Cell) : Value := Value.optText c

/-- A number in a text column: fifteen digits at most, and always a digit behind the point. -/
def realText (x : Float) : String :=
  if x == 0.0 then "0.0"
  else if x.isInf then (if x < 0.0 then "-Inf" else "Inf")
  else
    let s := Decimal.Form.general.write 15 false x Decimal.roundUp
    let mantissa := String.ofList (s.toList.takeWhile (· != 'e'))
    if mantissa.contains '.' then s else mantissa ++ ".0" ++ Text.drop mantissa.length s

/-- What a text column makes of a value that is entered at a place of a statement. Numbers are
written out, whole ones if they have at most 64 bits; lists and maps are refused. -/
def Cell.of (place : Nat) (v : Value) : Try Cell :=
  match v with
  | .null => .ok none
  | .text s => .ok (some s)
  | .bool b => .ok (some (if b then "1" else "0"))
  | .int n => if -Nat.pow 2 63 ≤ n && n < Nat.pow 2 63 then .ok (some (toString n))
    else .error (.tooLarge (some "Python int too large to convert to SQLite INTEGER"))
  | .float x => .ok (if x.isNaN then none else some (realText x))
  | v => .error (.unstorable (some ("Error binding parameter " ++ toString place ++ ": type '" ++
      v.kindName ++ "' is not supported")))

/-- Values at the places from one on. -/
def Cell.row (vs : List Value) : Try (List Cell) := (vs.zipIdx 1).mapM fun (v, i) => Cell.of i v

/-- Cells are equal only if there is something in them. -/
def Cell.same (a b : Cell) : Bool :=
  match a, b with
  | some x, some y => x == y
  | _, _ => false

structure DecisionRow where
  hash : String
  checkId : Cell
  verdict : Cell
  rationale : Cell
  remediation : Cell
  model : Cell
  response : Cell
  snippetHash : Cell

structure WeaknessRow where
  id : Cell
  name : Cell
  description : Cell
  owasp : Cell
  cwe : Cell

structure RemedyRow where
  id : Nat
  weakness : Cell
  name : Cell
  description : Cell
  template : Cell

structure ProfileRow where
  library : Cell
  spec : Cell
  kind : Cell
  identifier : Cell
  metadata : Cell

/-- Rows in the order in which they were entered; one entered anew comes last. -/
structure Librarian where
  decisions : List DecisionRow := []
  weaknesses : List WeaknessRow := []
  remedies : List RemedyRow := []
  profiles : List ProfileRow := []

def promptHash (messages : Value) : Try String := do
  let lines ← (← messages.each).mapM fun m => do
    return (← m.field "role").display ++ ":" ++ (← m.field "content").display ++ "\n"
  return Digest.sha256 (String.join lines)

/-- The digest of code up to blanks around it; there is none of nothing. -/
def snippetHash (snippet : Value) : Try String :=
  if !snippet.truthy then .ok ""
  else do return Digest.sha256 (Text.strip (← snippet.asText "strip"))

/-- What an answer says under `analysis`; an answer that is no map with it says nothing. -/
def recalledAnalysis (response : String) : Value :=
  match Json.read (Llm.unfenceOnce response) with
  | .ok v@(.map _) => v.getD "analysis" (.list [])
  | _ => .list []

namespace DecisionRow

def insight (d : DecisionRow) : Value :=
  .obj [("provider", .text "librarian"), ("model", d.model.value), ("response", d.response.value),
    ("analysis", d.response.elim (.list []) recalledAnalysis), ("cached", .bool true),
    ("verdict", d.verdict.value)]

end DecisionRow

namespace Librarian

variable (l : Librarian)

def decision? (hash : String) : Option DecisionRow := l.decisions.find? (·.hash == hash)

def find? (l : Librarian) (checkId snippetHash : Cell) : Option DecisionRow :=
  l.decisions.reverse.find? fun d => d.checkId.same checkId && d.snippetHash.same snippetHash

variable (messages checkId snippet : Value)

/-- A decision on the very same prompt, or else on the same check of the same code. -/
def remembered : Try (Option DecisionRow) := do
  match l.decision? (← promptHash messages) with
  | some d => return some d
  | none =>
    if checkId.truthy && snippet.truthy then
      return l.find? (← Cell.of 1 checkId) (some (← snippetHash snippet))
    else return none

def query : Try (Option Value) := do
  return (← l.remembered messages checkId snippet).map (·.insight)

def firstItem (analysis : Value) : Try (Option Value) :=
  match analysis with
  | .list (v :: _) => if v.isMap then .ok (some v) else .error (v.lacks "get")
  | _ => .ok none

def store (messages response analysis model snippet checkId : Value) : Try Librarian := do
  let hash ← promptHash messages
  let snippetHash ← snippetHash snippet
  let first ← firstItem analysis
  let said (k : String) : Value := (first.map (·.getD k (.text ""))).getD (.text "")
  let check := if checkId.truthy then checkId else said "check_id"
  match ← Cell.row [.text hash, check, said "verdict", said "rationale", said "remediation",
      .text "", model, response, .text snippetHash] with
  | [_, checkId, verdict, rationale, remediation, _, model, response, snippet] =>
    let d : DecisionRow := { hash, checkId, verdict, rationale, remediation, model, response, snippetHash := snippet }
    return { l with decisions := l.decisions.filter (·.hash != hash) ++ [d] }
  | _ => return l

def addWeakness (id name description owasp cwe : Value) : Try Librarian := do
  match ← Cell.row [id, name, description, owasp, cwe] with
  | [id, name, description, owasp, cwe] =>
    return { l with weaknesses :=
      l.weaknesses.filter (!·.id.same id) ++ [⟨id, name, description, owasp, cwe⟩] }
  | _ => return l

/-- A remedy of the same name for the same weakness is replaced. -/
def addRemedy (weakness name description template : Value) : Try Librarian := do
  let w ← Cell.of 1 weakness
  let n ← Cell.of 2 name
  let matching (r : RemedyRow) := r.weakness.same w && r.name.same n
  match l.remedies.find? matching with
  | some old =>
    let d ← Cell.of 1 description
    let t ← Cell.of 2 template
    return { l with remedies := l.remedies.map fun r =>
      if r.id == old.id then { r with description := d, template := t } else r }
  | none =>
    let d ← Cell.of 3 description
    let t ← Cell.of 4 template
    return { l with remedies := l.remedies ++ [⟨l.remedies.length + 1, w, n, d, t⟩] }

def addProfile (library spec kind identifier metadata : Value) : Try Librarian := do
  let text ← Json.render {} (if metadata.truthy then metadata else .obj [])
  match ← Cell.row [library, spec, kind, identifier, .text text] with
  | [library, spec, kind, identifier, metadata] =>
    let old (p : ProfileRow) := p.library.same library && p.spec.same spec && p.identifier.same identifier
    return { l with profiles :=
      l.profiles.filter (!old ·) ++ [⟨library, spec, kind, identifier, metadata⟩] }
  | _ => return l

/-- The profiles that hold for a version of a library; without a condition they hold for all. What is
no version has none. -/
def profilesOf (library version : Value) : Try (List ProfileRow) := do
  match version with
  | .text v =>
    if !Packages.isValidVersion v then return []
    let name ← Cell.of 1 library
    return l.profiles.filter fun p => p.library.same name && match p.spec with
      | none | some "" | some "*" => true
      | some spec => Packages.matchesSpec v spec
  | _ => return []

end Librarian

def ruleName (id : String) : String := Text.title (Text.replace ((Text.split id ".").getLastD "") "-" " ")

def Librarian.addRule (l : Librarian) (rule : Value) : Try Librarian := do
  let given ← rule.field "id"
  let message := Text.strip (← (← rule.field "message" (.text "")).asText "strip")
  let metadata ← rule.field "metadata" (.obj [])
  let owasp ← metadata.field "owasp" (.text "Unknown")
  let cwe ← metadata.field "cwe" (.text "Unknown")
  let id ← given.asText "split"
  let l ← l.addWeakness (.text id) (.text (ruleName id)) (.text message) owasp cwe
  l.addRemedy (.text id) (.text "Standard Mitigation") (.text message) (.text "")

def addRules (l : Librarian) : List Value → Try Unit × Librarian
  | [] => (.ok (), l)
  | r :: rest => match l.addRule r with
    | .ok l => addRules l rest
    | .error e => (.error e, l)

/-- Enters the rules of a document; those before one that is no rule are kept. -/
def Librarian.populate (l : Librarian) (doc : Value) : Try Unit × Librarian :=
  if !doc.truthy then (.ok (), l)
  else match doc.mentioned? "rules" with
    | .error e => (.error e, l)
    | .ok none => (.ok (), l)
    | .ok (some rules) => match rules.each with
      | .ok rules => addRules l rules
      | .error e => (.error e, l)

end SecScan.Knowledge
