import SecScan.Telemetry.Metrics

/-! Conversations with the providers' services: several keys are tried in turn, and a second
provider may step in. The network is a list of replies, one for each request. -/
namespace SecScan.Llm

open Text

/-! Addresses of services, as they stand in a request. -/

/-- An address without blanks around it, without angle brackets and without the mark `URL:`. -/
def bareAddress (s : String) : String :=
  let s := strip s
  let s := if s.front == '<' && s.back == '>' then strip (take (s.length - 2) (drop 1 s)) else s
  if hasPrefix s "URL:" then strip (drop 4 s) else s

/-- Something other than a slash stands before the first colon. -/
def hasScheme (s : List Char) : Bool :=
  match s.span fun c => c != '/' && c != ':' with
  | (_ :: _, ':' :: _) => true
  | _ => false

def splitFragment (s : String) : List Char × List Char :=
  match s.toList.reverse.span (· != '#') with
  | (tag, _ :: path) => (path.reverse, tag.reverse)
  | (all, []) => (all.reverse, [])

/-- The address a request goes to, if it says how the service is reached. A fragment that is empty
is left out. -/
def requestAddress? (s : String) : Option String :=
  let (path, tag) := splitFragment (bareAddress s)
  if !hasScheme path then none
  else some (String.ofList (if tag.isEmpty then path else path ++ '#' :: tag))

inductive Reply where
  | body (text : String)
  | refused (status : Value) (body : String)
  | unreachable (reason : String)

structure Request where
  url : String
  authorization : Option String := none
  body : Value
  timeout : Value

structure Network where
  replies : List Reply := []
  sent : List Request := []

def Network.send (n : Network) (r : Request) : Try Reply × Network :=
  match n.replies with
  | [] => (.error .outOfRange, { n with sent := r :: n.sent })
  | reply :: rest => (.ok reply, { replies := rest, sent := r :: n.sent })

structure Endpoint where
  provider : String
  model : Value
  baseUrl : Value

structure Client where
  endpoint : Endpoint
  keys : List Value
  index : Nat := 0
  key : Value := keys.headD .null
  fallbackProvider : String := ""
  fallbackKeys : List Value := []
  rotates : Bool := true
  fallsBack : Value := .bool false
  timeout : Value := .int 30

variable (provider : String)

def isGemini : Bool := ["gemini", "google"].contains provider

def defaultModel : String :=
  if isGemini provider then "gemini-1.5-flash" else "gpt-4o-mini"

def defaultBaseUrl : String :=
  if isGemini provider then "https://generativelanguage.googleapis.com/v1beta"
  else "https://api.openai.com/v1"

def keysOf (env : Environment) (provider : String) : List Value :=
  (if isGemini provider then [["GEMINI_API_KEY", "GOOGLE_API_KEY"], ["GEMINI_API_KEY_2"], ["GEMINI_API_KEY_3"]]
  else [["OPENAI_API_KEY"], ["OPENAI_API_KEY_2"], ["OPENAI_API_KEY_3"]]).filterMap fun names =>
    (names.findSome? env.get?).map .text

structure ClientOptions where
  provider : Value := .null
  model : Value := .null
  key : Value := .null
  baseUrl : Value := .null
  timeout : Value := .int 30
  rotates : Bool := true
  fallsBack : Value := .bool true

namespace Client

def of (env : Environment) (o : ClientOptions) : Try Client := do
  let given (v : Value) (names : List String) (d : String) : Value :=
    v.orElse (.text ((names.findSome? env.get?).getD d))
  let provider := lower (← (given o.provider ["LLM_PROVIDER"] "openai").asText "lower")
  let second := lower ((env.get? "LLM_FALLBACK_PROVIDER").getD "")
  let base := if isGemini provider then "GEMINI_BASE_URL" else "OPENAI_BASE_URL"
  return { endpoint := { provider, model := given o.model ["LLM_MODEL"] (defaultModel provider)
                         baseUrl := given o.baseUrl [base] (defaultBaseUrl provider) }
           keys := if o.key.truthy then [o.key] else keysOf env provider
           fallbackProvider := second, fallbackKeys := keysOf env second, rotates := o.rotates
           fallsBack := if o.fallsBack.truthy then .bool (second != "") else o.fallsBack
           timeout := o.timeout }

def isConfigured (c : Client) : Bool := c.key.truthy

/-- The keys take turns, the first one after the last. -/
def nextKey (c : Client) : Client :=
  let i := (c.index + 1) % c.keys.length
  { c with index := i, key := c.keys.getD i .null }

def lend (c : Client) (key : Value) : Client :=
  { c with key, endpoint := { provider := c.fallbackProvider, model := .text (defaultModel c.fallbackProvider)
                              baseUrl := .text (defaultBaseUrl c.fallbackProvider) } }

def restore (c own : Client) : Client := { c with key := own.key, endpoint := own.endpoint }

end Client

structure Session where
  client : Client
  network : Network := {}
  metrics : Telemetry.Metrics := {}

def parsedBody (content : Value → Try Value) (text : String) : Try Value :=
  match Json.read text with
  | .error .notJson => .ok (.obj [("error", .text "llm response parse failed"), ("raw", .text text)])
  | .error f => .error f
  | .ok raw => do return .obj [("content", ← content raw), ("raw", raw)]

def first? : Value → Option Value
  | .list (v :: _) => some v
  | .text s => (s.toList.head?).map fun c => .text c.toString
  | _ => none

def chosenText (raw : Value) : Try Value :=
  .ok (((raw.get? "choices").bind first?).bind (·.get? "message") |>.bind (·.get? "content")
    |>.getD .null)

def joinedParts (parts : List Value) : Try Value := do
  let texts ← parts.mapM fun p => match p with
    | .map _ => pure (p.getD "text" (.text ""))
    | _ => .error .noField
  return match texts.mapM Value.text? with
    | some l => .text (String.join l)
    | none => .null

def candidateText (raw : Value) : Try Value :=
  match ((raw.get? "candidates").bind first?).bind (·.get? "content") |>.bind (·.get? "parts") with
  | some (.list parts) => joinedParts parts
  | some (.map l) => if l.isEmpty then .ok (.text "") else .error .noField
  | some (.text s) => if s.isEmpty then .ok (.text "") else .error .noField
  | _ => .ok .null

/-- Counts the tokens that a reply reports under the names a provider gives them. -/
def countUsage (m : Telemetry.Metrics) (model : Value) (field prompt completion : String)
    (result : Value) : Try Unit × Telemetry.Metrics :=
  match result.get? "raw" with
  | none => (.ok (), m)
  | some raw =>
    match raw.mentioned? field with
    | .error f => (.error f, m)
    | .ok none => (.ok (), m)
    | .ok (some usage) =>
      if usage.isMap then
        m.trackTokens model (usage.getD prompt (.int 0)) (usage.getD completion (.int 0))
      else (.error .noField, m)

def address (parts : List Value) : Try String :=
  match requestAddress? (String.join (parts.map (·.display))) with
  | some url => .ok url
  | none => .error (.invalid none)

def openaiRequest (e : Endpoint) (timeout key messages : Value) : Try Request := do
  return { url := ← address [e.baseUrl, .text "/chat/completions"]
           authorization := some ("Bearer " ++ key.display), timeout
           body := .obj [("model", e.model), ("messages", messages), ("temperature", .float 0.2)] }

def part (text : Value) : Value := .list [.obj [("text", text)]]

def geminiRequest (e : Endpoint) (timeout key messages : Value) : Try Request := do
  let roles ← (← messages.each).mapM fun m => match m with
    | .map _ => pure (m.getD "role" .null, m.getD "content" (.text ""))
    | _ => .error .noField
  let (system, rest) := roles.partition fun r => Value.isKey "system" r.1
  let instruction ← match system with
    | [] => pure []
    | _ => match system.mapM (·.2.text?) with
      | some l => pure [("system_instruction", Value.obj [("role", .text "system"),
          ("parts", part (.text (strip ("\n".intercalate l))))])]
      | none => .error .wrongKind
  let contents := rest.map fun (role, text) =>
    Value.obj [("role", .text (if Value.isKey "user" role then "user" else "model")), ("parts", part text)]
  return { url := ← address [e.baseUrl, .text "/models/", e.model, .text ":generateContent?key=", key]
           timeout
           body := .obj ([("contents", .list contents),
             ("generationConfig", .obj [("temperature", .float 0.2)])] ++ instruction) }

namespace Session

variable (s : Session)

/-- Sends a request and reads the reply, `content` being where its text stands and the names those
of its token counts. -/
def exchange (r : Request) (content : Value → Try Value) (field prompt completion : String) : Try Value × Session :=
  let (reply, net) := s.network.send r
  let s := { s with network := net }
  match reply with
  | .error f => (.error f, s)
  | .ok (.refused status body) =>
    (.ok (.obj [("error", .text "llm http error"), ("status", status), ("body", .text body)]), s)
  | .ok (.unreachable reason) => (.ok (.obj [("error", .text "llm connection error"), ("reason", .text reason)]), s)
  | .ok (.body text) =>
    match parsedBody content text with
    | .error f => (.error f, s)
    | .ok result =>
      let (counted, m) := countUsage s.metrics s.client.endpoint.model field prompt completion result
      (counted.map fun _ => result, { s with metrics := m })

def attempt (key messages : Value) : Try Value × Session :=
  let e := s.client.endpoint
  if e.provider == "openai" then
    match openaiRequest e s.client.timeout key messages with
    | .error f => (.error f, s)
    | .ok r => s.exchange r chosenText "usage" "prompt_tokens" "completion_tokens"
  else if isGemini e.provider then
    match geminiRequest e s.client.timeout key messages with
    | .error f => (.error f, s)
    | .ok r => s.exchange r candidateText "usageMetadata" "promptTokenCount" "candidatesTokenCount"
  else (.ok (.obj [("error", .text ("unsupported provider: " ++ e.provider))]), s)

def isError (result : Value) : Bool := (result.getD "error" .null).truthy

/-- Another key may help when the quota is used up or the key is not accepted. -/
def wantsNextKey (result : Value) : Bool :=
  isError result && [429, 401].any fun n => (result.getD "status" .null).same (.int n)

/-- Tries up to `n` keys in turn, as long as another may help; an empty key is passed over. -/
def tryKeys (s : Session) (messages result : Value) : Nat → Try Value × Session
  | 0 => (.ok result, s)
  | n + 1 =>
    if !s.client.key.truthy then s.tryKeys messages result n
    else match s.attempt s.client.key messages with
      | (.error f, s) => (.error f, s)
      | (.ok r, s) =>
        if !wantsNextKey r || n == 0 then (.ok r, s)
        else tryKeys { s with client := s.client.nextKey } messages r n

variable (messages : Value)

def tryPrimary : Try Value × Session :=
  let failed (why : String) := Value.obj [("error", .text why)]
  if s.client.keys.isEmpty then (.ok (failed "no api keys configured"), s)
  else s.tryKeys messages (failed "uninitialized") (if s.client.rotates then s.client.keys.length else 1)

/-- The second provider's answer, if it has a key. Whatever comes of it, the client turns back. -/
def tryFallback : Try (Option Value) × Session :=
  match s.client.fallbackKeys with
  | [] => (.ok none, s)
  | k :: _ =>
    let (r, t) := { s with client := s.client.lend k }.attempt k messages
    (r.map fun v => some (v.put "_fallback_used" (.bool true)), { t with client := t.client.restore s.client })

def chat : Try Value × Session :=
  match s.tryPrimary messages with
  | (.error f, s) => (.error f, s)
  | (.ok result, s) =>
    if isError result && s.client.fallsBack.truthy then
      match s.tryFallback messages with
      | (.error f, s) => (.error f, s)
      | (.ok (some r), s) => (.ok (if isError r then result else r), s)
      | (.ok none, s) => (.ok result, s)
    else (.ok result, s)

def analyze (system user : Value) : Try Value × Session :=
  if !s.client.isConfigured then
    (.error (.invalid (some ("No API Key configured for " ++ s.client.endpoint.provider))), s)
  else
    let message (role : String) (text : Value) := Value.obj [("role", .text role), ("content", text)]
    let (r, s) := s.chat (.list [message "system" system, message "user" user])
    (r.bind fun v =>
      if isError v then
        .error (.failed (some ("AI Analysis failed: " ++ ((v.getD "error" .null).text?.getD ""))))
      else .ok (v.getD "content" (.text "")), s)

end Session

inductive ClientKind where
  | mock
  | provider (name : String)
  | remote

def ClientKind.ofName (name : String) : ClientKind :=
  if ["server", "remote"].contains name then .remote
  else if ["openai", "gemini", "google", "auto"].contains name then .provider name
  else .mock

def mockAnswer : String := "MOCK_RESPONSE: Analysis complete. No vulnerabilities found (Simulated)."

/-! Analysis by a server of one's own. -/

structure Remote where
  baseUrl : Value
  key : Value

namespace Remote

def of (env : Environment) (options : Value) : Try Remote := do
  options.onlyFields ["base_url", "api_key"]
  return { baseUrl := (options.sub "base_url").orElse
             (.text ((env.lookup "NSSS_SERVER_URL").getD "http://localhost:8000"))
           key := (options.sub "api_key").orElse (.optText (env.lookup "NSSS_API_KEY")) }

def url (r : Remote) : String := r.baseUrl.display ++ "/analyze"

def headers (r : Remote) : Fields :=
  ("Content-Type", .text "application/json") :: if r.key.truthy then [("X-API-Key", r.key)] else []

def payload (now : Float) (user : Value) : Value :=
  .obj [("function_signature", user), ("language", .text "python"),
    ("vulnerability_type", .text "unknown"), ("context", .obj []),
    ("privacy_mask", .obj [("enabled", .bool false), ("map", .obj [])]),
    ("metadata", .obj [("mode", .text "precision"),
      ("request_id", .text (toString (Number.real (now * 1000.0)).truncate))])]

def answer (body : Value) : Try Value :=
  match body with
  | .map _ =>
    if (body.getD "status" .null).text? != some "success" then
      .error (.failed (some (body.getD "message" (.text "Remote server error")).display))
    else match body.getD "data" (.obj []) with
      | .map l => .ok ((Value.map l).getD "analysis_summary" (.text ""))
      | _ => .error .noField
  | _ => .error .noField

end Remote

end SecScan.Llm
