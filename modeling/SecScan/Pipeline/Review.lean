import SecScan.Flow.Ssa
import SecScan.Knowledge.Librarian
import SecScan.Llm.Budget
import SecScan.Llm.Prompt
import SecScan.Pipeline.Site

/-! Findings reviewed by a model: each block that has some is shown to it, unless an answer is known
already or the budget does not allow it. -/
namespace SecScan.Pipeline

open SecScan.Flow (Ssa SsaBlock RenamedItem Phi)

def phiText (p : Phi) : String :=
  p.result.text ++ " = phi("
    ++ ", ".intercalate (p.operands.map fun (b, v) => "B" ++ toString b ++ ":" ++ v.text) ++ ")"

def phiTexts (s : Ssa) (b : Nat) : List String := ((s.blocks.find? (·.id == b)).map fun x => x.phis.map phiText).getD []

structure Mention where
  name : String
  version : String
  bound : Bool
  deriving BEq

def mentions (i : RenamedItem) : List Mention :=
  (i.reads ++ i.writes).map fun (o, v) => ⟨o.name, v.text, o.ctx == .store⟩

def mentionsIn (covered : RenamedItem → Bool) (b : SsaBlock) : List Mention :=
  let all := b.items.flatMap mentions
  let near := (b.items.filter covered).flatMap mentions
  if near.isEmpty then all
  else all.filter fun m => near.any fun n => n.name == m.name && n.version == m.version

def versionRows (l : List Mention) : Value :=
  let pairs := (l.map fun m => (m.name, m.version)).eraseDups
  .list ((pairs.mergeSort fun a b => a.1 < b.1 || (a.1 == b.1 && a.2 ≤ b.2)).map fun (n, v) =>
    .obj [("name", .text n), ("version", .text v)])

def snippetOf (b : Flow.Block) (lines : List String) : String :=
  let locs := b.items.filterMap (·.node.loc?)
  match (locs.map (·.line)).min?, (locs.map (·.endLine)).max? with
  | some first, some last => "\n".intercalate ((lines.take last).drop (first - 1))
  | _, _ => ""

/-- The question about the findings of a block. Of the variables it tells those that the lines of the
findings mention, or all if these mention none. -/
def questionAt (s : Ssa) (file snippet : String) (site : Site) : Llm.Question :=
  let found := (site.findings.map (·.sub "line")).filter (·.truthy)
  let covered (i : RenamedItem) := found.any fun line => (covers line i.item).toOption == some true
  let known := ((s.blocks.find? (·.id == site.block.id)).map (mentionsIn covered)).getD []
  let locs := site.block.items.map (·.node.loc?)
  { findings := .list site.findings, scope := .text site.block.scope.name
    snippet := .text snippet, file := .text file
    startLine := Value.ofOption (fun l => .nat l.line) locs.head?.join
    endLine := Value.ofOption (fun l => .nat l.endLine) locs.getLast?.join
    phiNodes := .texts (phiTexts s site.block.id), defs := versionRows (known.filter (·.bound))
    uses := versionRows (known.filter (!·.bound)) }

def copyField (target source : String) (v : Value) : Value :=
  if !v.has target && (v.sub source).truthy then v.put target (v.sub source) else v

/-- An item of an analysis in which the names that mean the same are all filled in. -/
def completed (item : Value) : Value :=
  if item.isMap then copyField "secure_code_snippet" "secure_code"
    (copyField "remediation" "fix_suggestion" (copyField "fix_suggestion" "remediation" item))
  else item

def analysisOf (content : Value) : Option Value :=
  match content with
  | .text s => match Json.read (Llm.unfenceOnce s) with
    | .ok v@(.map _) => match v.get? "analysis" with
      | some (.list l) => some (.list (l.map completed))
      | _ => none
    | _ => none
  | _ => none

structure Client where
  configured : Bool := false
  model : String := ""

/-- What outlasts the review of a block: the budget, what is known, the answers that a model is going
to give, and the questions it was asked. -/
structure Reviewer where
  client : Client := {}
  gate : Llm.Gate := {}
  librarian : Knowledge.Librarian := {}
  replies : List (Try Value) := []
  asked : List Value := []

namespace Reviewer

variable (r : Reviewer)

def ask (prompt : Value) : Try Value × Reviewer :=
  let r := { r with asked := r.asked ++ [prompt] }
  match r.replies with
  | [] => (.error (.outOfRange (some "pop from empty list")), r)
  | a :: rest => (a, { r with replies := rest })

def insightOf (provider model snippet : String) (response : Value) : Value :=
  .obj ([("provider", .text provider), ("model", .text model), ("response", response.sub "content"),
      ("error", response.sub "error"), ("snippet", .text snippet)]
    ++ ((analysisOf (response.sub "content")).map (("analysis", ·))).toList
    ++ ["status", "body", "raw"].filterMap fun k => (response.get? k).map (k, ·))

def keep (prompt response snippet checkId : Value) : Try Reviewer := do
  let content := response.sub "content"
  if content.truthy && !(response.sub "error").truthy then
    let l ← r.librarian.store prompt content ((analysisOf content).getD (.list []))
      (.text r.client.model) snippet checkId
    return { r with librarian := l }
  else return r

def consult (now : Float) (provider : String) (d : Llm.Decision)
    (prompt : Value) (snippet : String) (checkId : Value) : Try (Option Value) × Reviewer :=
  match r.ask prompt with
  | (.error e, r) => (.error e, r)
  | (.ok response, r) =>
    match r.gate.record now ⟨true, .text provider⟩ response d with
    | (.error e, g) => (.error e, { r with gate := g })
    | (.ok _, g) =>
      let r := { r with gate := g }
      if !response.isMap then (.error (response.lacks "get"), r)
      else match r.keep prompt response (.text snippet) checkId with
        | .error e => (.error e, r)
        | .ok r => (.ok (some (insightOf provider r.client.model snippet response)), r)

/-- What is to be said of one block; nothing if there is no code to show or the budget forbids it. -/
def review (now : Float) (provider file : String) (lines : List String) (s : Ssa)
    (site : Site) : Try (Option Value) × Reviewer :=
  let snippet := snippetOf site.block lines
  if site.findings.isEmpty || snippet.isEmpty then (.ok none, r)
  else
    let checkId := match site.findings with
      | f :: _ => f.getD "check_id" (.text "")
      | [] => .text ""
    match (questionAt s file snippet site).messages with
    | .error e => (.error e, r)
    | .ok messages =>
      let prompt := Value.list (messages.map (·.value))
      match r.librarian.query prompt checkId (.text snippet) with
      | .error e => (.error e, r)
      | .ok (some known) => (.ok (some (known.put "snippet" (.text snippet))), r)
      | .ok none => match r.gate.evaluate now prompt ⟨r.client.configured, .text provider⟩ with
        | .error e => (.error e, r)
        | .ok (d, g) =>
          let r := { r with gate := g }
          if d.allowed then r.consult now provider d prompt snippet checkId else (.ok none, r)

def reviewAll (r : Reviewer) (now : Float) (provider file : String) (lines : List String) (s : Ssa) :
    List Site → Try Unit × List Site × Reviewer
  | [] => (.ok (), [], r)
  | site :: rest => match r.review now provider file lines s site with
    | (.error e, r) => (.error e, site :: rest, r)
    | (.ok said, r) =>
      let (result, rest, r) := reviewAll r now provider file lines s rest
      (result, { site with insights := site.insights ++ said.toList } :: rest, r)

end Reviewer

end SecScan.Pipeline
