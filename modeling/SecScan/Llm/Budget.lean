import SecScan.Data

/-! The budget of a scan: requests to the model are admitted as long as their estimated tokens and
cost fit, and the estimates are replaced by the real numbers once these are known. -/
namespace SecScan.Llm

open Value

structure Budget where
  maxTokens : Value := .int 100000
  maxCost : Value := .null
  maxCompletion : Value := .int 1024
  costPerThousand : Value := .obj [("gemini", .float 0.0), ("google", .float 0.0), ("openai", .float 0.0)]
  cooldown : Value := .int 60

def Budget.ofConfig (config : Value) : Try Budget := do
  config.onlyFields ["max_tokens_per_scan", "max_cost_per_scan", "max_completion_tokens",
    "cost_per_1k_tokens", "rate_limit_cooldown_seconds"]
  let d : Budget := {}
  return { maxTokens := config.getD "max_tokens_per_scan" d.maxTokens
           maxCost := config.getD "max_cost_per_scan" d.maxCost
           maxCompletion := config.getD "max_completion_tokens" d.maxCompletion
           costPerThousand := config.getD "cost_per_1k_tokens" d.costPerThousand
           cooldown := config.getD "rate_limit_cooldown_seconds" d.cooldown }

structure Sender where
  configured : Bool
  provider : Value := .text "openai"

/-- Absent fields have the usual values. -/
def Sender.ofValue (v : Value) : Sender :=
  { configured := (v.getD "is_configured" .null).truthy, provider := v.getD "provider" (.text "openai") }

structure Decision where
  allowed : Bool
  reason : String
  tokens : Value := .int 0
  cost : Value := .float 0.0
  deriving Inhabited

def Decision.value (d : Decision) : Value :=
  .obj [("allowed", .bool d.allowed), ("reason", .text d.reason),
    ("estimated_tokens", d.tokens), ("estimated_cost", d.cost)]

structure Gate where
  budget : Budget := {}
  tokensUsed : Value := .int 0
  costUsed : Value := .float 0.0
  limitedUntil : Entries := []

def joined : List Value → Try (List String)
  | [] => .ok []
  | .text s :: rest => do return s :: (← joined rest)
  | _ :: _ => .error .wrongKind

def flattenPrompt (prompt : Value) : Try String :=
  match prompt with
  | .list l => do
    return " ".intercalate (← joined (l.map fun m => match m with
      | .map _ => m.getD "content" (.text "")
      | v => .text v.display))
  | v => .ok v.display

/-- Four characters count as a token. -/
def estimateTokens (text : String) : Nat := if text.isEmpty then 0 else max 1 (text.length / 4)

def price (table provider : Value) : Try Value :=
  match table with
  | .map es => do
    provider.requireFixed
    return (under? provider es).getD (.float 0.0)
  | v => .error (v.lacks "get")

def Budget.cost (b : Budget) (provider tokens : Value) : Try Value := do
  if ← tokens.atMost (.int 0) then return .float 0.0
  let perThousand ← price b.costPerThousand provider
  (← tokens.dividedBy (.float 1000.0)).times perThousand

def reportedUsage (response : Value) : Try (Option (Value × Value)) := do
  let raw ← response.field "raw" (.obj [])
  let read (field prompt completion : String) : Try (Option (Value × Value)) := do
    let u := raw.getD field .null
    return some (← u.field prompt (.int 0), ← u.field completion (.int 0))
  if raw.has "usage" then read "usage" "prompt_tokens" "completion_tokens"
  else if raw.has "usageMetadata" then read "usageMetadata" "promptTokenCount" "candidatesTokenCount"
  else return none

namespace Gate

variable (g : Gate)

def reset : Gate := { g with tokensUsed := .int 0, costUsed := .float 0.0 }

variable (now : Float)

def isLimited (provider : Value) : Try Bool := do
  provider.requireFixed
  less (.float now) ((under? provider g.limitedUntil).getD (.float 0.0))

/-- A pause that is absent or zero stands for the usual one. -/
def limit (provider pause : Value) : Try Gate := do
  let until' ← plus (.float now) (pause.orElse g.budget.cooldown)
  provider.requireFixed
  return { g with limitedUntil := enter provider until' g.limitedUntil }

def exceeds (used extra max : Value) : Try Bool :=
  if max.isNull then .ok false else do (← used.plus extra).more max

/-- Whether a prompt may be sent; what it is estimated to use is set aside at once. -/
def evaluate (prompt : Value) (s : Sender) : Try (Decision × Gate) := do
  let refuse (why : String) : Decision × Gate := (⟨false, why, .int 0, .float 0.0⟩, g)
  if !s.configured then return refuse "Provider not configured"
  if ← g.isLimited now s.provider then return refuse "Provider rate limit cooldown active"
  let tokens ← plus (.nat (estimateTokens (← flattenPrompt prompt))) g.budget.maxCompletion
  if ← exceeds g.tokensUsed tokens g.budget.maxTokens then return refuse "Token budget exceeded"
  let cost ← g.budget.cost s.provider tokens
  if ← exceeds g.costUsed cost g.budget.maxCost then return refuse "Cost budget exceeded"
  return (⟨true, "Allowed", tokens, cost⟩,
    { g with tokensUsed := ← g.tokensUsed.plus tokens, costUsed := ← g.costUsed.plus cost })

/-- The tokens in use if their real number stands in place of an estimate. -/
def corrected (actual : Value) (d : Decision) : Try Value := do
  g.tokensUsed.plus (← actual.minus d.tokens)

/-- Puts the real number of tokens in place of the estimate, and gives that number. -/
def recount (prompt completion : Value) (d : Decision) : Try (Value × Gate) := do
  let actual ← prompt.plus completion
  return (actual, { g with tokensUsed := ← larger (.int 0) (← g.corrected actual d) })

def reprice (provider actual : Value) (d : Decision) : Try Gate := do
  let delta ← (← g.budget.cost provider actual).minus d.cost
  return { g with costUsed := ← larger (.float 0.0) (← g.costUsed.plus delta) }

/-- The tokens come first: they are counted also if the cost cannot be told. -/
def settle (provider prompt completion : Value) (d : Decision) : Try Unit × Gate :=
  match g.recount prompt completion d with
  | .error f => (.error f, g)
  | .ok (actual, g) => match g.reprice provider actual d with
    | .error f => (.error f, g)
    | .ok g => (.ok (), g)

/-- A provider that has had too many requests gets a pause. -/
def noteLimit (s : Sender) (response : Value) : Try Gate := do
  if same (← response.field "status") (.int 429) then g.limit now s.provider .null else return g

def record (s : Sender) (response : Value) (d : Decision) : Try Unit × Gate :=
  if !response.truthy then (.ok (), g)
  else match g.noteLimit now s response with
    | .error f => (.error f, g)
    | .ok g => match reportedUsage response with
      | .error f => (.error f, g)
      | .ok none => (.ok (), g)
      | .ok (some (p, c)) => g.settle s.provider p c d

end Gate

def preferredProvider (env : Environment) : String :=
  if ["GEMINI_API_KEY", "GOOGLE_API_KEY", "GEMINI_API_KEY_2", "GEMINI_API_KEY_3"].any
      (env.get? · |>.isSome) then "gemini"
  else Text.lower ((env.lookup "LLM_PROVIDER").getD "openai")

end SecScan.Llm
