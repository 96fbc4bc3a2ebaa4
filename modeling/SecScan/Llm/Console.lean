import SecScan.Llm.Budget
import SecScan.Llm.Client
import SecScan.Llm.Gateway

/-! Scripts for the parts that stand between a scan and the model. -/
namespace SecScan.Llm

def Breaker.console : Console (Breaker Number) := .timeless (fun b t name args => match name, args with
    | "allow", [] => let (r, b) := b.allow (.real t); (.ok (.bool r), b)
    | "ok", [] => (.ok .null, b.recordSuccess)
    | "fail", [] => (.ok .null, b.recordFailure (.real t))
    | _, _ => (.error (misused ["allow", "ok", "fail"] name), b))
  fun b => some (.list [.text b.phase.text, .nat b.failures, .nat b.successes, .bool b.inFlight])

def Breakers.console : Console Breakers := .timeless fun r _ name args =>
  match name, args with
  | "get", [k, c] => keeping r (do r.get k (← BreakerSettings.ofValue c)) fun (n, c, r) =>
    (.ok (.list [.nat n, c.failureThreshold, c.recovery, c.successThreshold]), r)
  | _, _ => (.error (misused ["get"] name), r)

def Freshness.console : Console Freshness := .timeless fun f t name args =>
  match name, args with
  | "valid", [updated] => ((f.isValid (.float t) updated).map .bool, f)
  | "refresh", [updated] => ((f.shouldRefresh (.float t) updated false).map .bool, f)
  | "refresh", [updated, force] => ((f.shouldRefresh (.float t) updated force.truthy).map .bool, f)
  | _, _ => (.error (misused ["valid", "refresh"] name), f)

def Chain.console : Console Chain := .timeless (fun c _ name _ => match name with
    | "next" => let (p, c) := c.next; (.ok (p.getD .null), c)
    | "current" => (.ok c.current, c)
    | "reset" => (.ok .null, c.reset)
    | "should" => (.ok (.bool true), c)
    | _ => (.error .noKey, c))
  fun c => some (.nat c.index)

/-- A gateway to a model whose answers are written down, with the number of times it was asked. A
breaker that is shared with others has a clock of its own, which stands still here. -/
structure Desk where
  gateway : Gateway Number
  answers : List Value := []
  calls : Nat := 0
  shared : Bool := false

variable (v : Value)

/-- An answer written down, or that there is none: a map with the field `raise` fails. -/
def writtenAnswer : Answer := if v.has "raise" then .error (.failed none) else .ok v

def Desk.ofValue : Try Desk := do
  let client := v.sub "client"
  let backend : Backend := ⟨client.sub "provider", client.sub "model"⟩
  let empty : Cache := ⟨⟨v.sub "ttl"⟩, []⟩
  let cache ← match v.get? "cache_file" with
    | some (.text t) => empty.load t
    | _ => pure empty
  let shared := match v.get? "breaker" with
    | some .null => true
    | _ => false
  let breaker ← if shared then do
      let (_, c, _) ← Breakers.get [] (backend.breakerKey "FakeClient") { recovery := .int 30 }
      pure c.breaker
    else do pure (← (← BreakerSettings.ofValue (v.sub "breaker")).bounded).breaker
  return { gateway := ⟨backend, breaker, cache⟩, answers := v.listAt "answers", shared }

def Desk.ask (d : Desk) (t : Float) (system user : Value) : Answer × Desk :=
  let reply := match d.answers with
    | [] => .error .outOfRange
    | a :: _ => writtenAnswer a
  let now : Moment Number := ⟨.float t, .real (if d.shared then 0.0 else t)⟩
  let (o, g) := d.gateway.analyze now now ⟨system, user⟩ reply
  (o.answer, if o.asked then { d with gateway := g, answers := d.answers.drop 1, calls := d.calls + 1 }
    else { d with gateway := g })

def Desk.console : Console Desk := .showing (.timeless fun d t name args =>
    let g := d.gateway
    let withCache (c : Cache) : Desk := { d with gateway := { g with cache := c } }
    match name, args with
    | "analyze", [s, u] => d.ask t s u
    | "get", [k] =>
      let (r, c) := g.cache.get (.float t) k
      (r.map (·.getD .null), withCache c)
    | "set", [k, v] => keeping d k.requireFixed fun _ => (.ok .null, withCache (g.cache.set (.float t) k v))
    | "clear", _ => (.ok .null, withCache g.cache.clear)
    | "reload", _ => keeping d (g.cache.text >>= g.cache.load) fun c => (.ok (.nat c.entries.length), withCache c)
    | "key", _ => (.ok (g.backend.breakerKey "FakeClient"), d)
    | _, _ => (.error (misused ["analyze", "get", "set"] name), d))
  fun d => do
    let entries ← Value.sortOn (·.1) d.gateway.cache.entries
    return .list [.nat d.calls, .text d.gateway.breaker.phase.text,
      Value.rows (entries.map fun (k, e) => [k, e.response, e.updatedAt])]

def Reply.ofValue : Reply :=
  match v.get? "urlerror", v.get? "status" with
  | some r, _ => .unreachable r.display
  | _, some s => .refused s (v.str "body")
  | _, _ => .body (v.str "body")

def ClientOptions.ofValue (a : Value) : Try ClientOptions := do
  a.onlyFields ["provider", "model", "api_key", "timeout", "base_url", "enable_rotation", "enable_fallback"]
  return { provider := a.sub "provider", model := a.sub "model", key := a.sub "api_key"
           baseUrl := a.sub "base_url", timeout := a.getD "timeout" (.int 30)
           rotates := a.flag "enable_rotation" true, fallsBack := a.getD "enable_fallback" (.bool true) }

def Session.ofValue : Try Session := do
  return { client := ← Client.of (v.sub "env").textFields (← ClientOptions.ofValue (v.sub "args"))
           network := ⟨(v.listAt "replies").map .ofValue, []⟩ }

def Client.setup (c : Client) : Value :=
  .list [.text c.endpoint.provider, c.endpoint.model, .list c.keys, c.endpoint.baseUrl,
    .text c.fallbackProvider, c.fallsBack, .bool c.isConfigured]

def Request.row (r : Request) : List Value := [.text r.url, Value.optText r.authorization, r.body, r.timeout]

def Session.console : Console Session := .timeless (fun s _ name args =>
    let s := { s with network.sent := [] }
    match name, args with
    | "analyze", [x, u] => s.analyze x u
    | "chat", [m] => s.chat m
    | _, _ => (.error (misused ["analyze", "chat"] name), s))
  fun s =>
    let c := s.client
    some (.list [.text c.endpoint.provider, c.endpoint.model, c.key,
      .nat c.index, c.endpoint.baseUrl, Value.rows (s.network.sent.reverse.map (·.row)),
      s.metrics.tokenSummary])

structure GateLog where
  gate : Gate
  decisions : List Decision := []
  env : Environment := []

def GateLog.console : Console GateLog := .timeless (fun s t name args =>
    let g := s.gate
    let withGate (g : Gate) : GateLog := { s with gate := g }
    let said (r : Try Unit) : Answer := r.map fun _ => .null
    let limited (g : Try Gate) : Answer × GateLog := keeping s g fun g => (.ok .null, withGate g)
    match name, args with
    | "evaluate", [p, c] => keeping s (g.evaluate t p (.ofValue c)) fun (d, g) =>
      (.ok d.value, { s with gate := g, decisions := s.decisions ++ [d] })
    | "record", [c, r, k] => keeping s (Value.itemOf s.decisions k) fun d =>
      let (r, g) := g.record t (.ofValue c) r d; (said r, withGate g)
    | "rate_limit", [p] => limited (g.limit t p .null)
    | "rate_limit", [p, n] => limited (g.limit t p n)
    | "limited", [p] => ((g.isLimited t p).map .bool, s)
    | "reset", _ => (.ok .null, withGate g.reset)
    | "estimate", [p] => ((flattenPrompt p).map fun x => .nat (estimateTokens x), s)
    | "flatten", [p] => ((flattenPrompt p).map .text, s)
    | "provider", _ => (.ok (.text (preferredProvider s.env)), s)
    | "cost", [p, _, n] => (g.budget.cost p n, s)
    | "usage", [r] => ((reportedUsage r).map fun u => Value.ofOption (fun (a, b) =>
        .obj [("prompt_tokens", a), ("completion_tokens", b)]) u, s)
    | _, _ => (.error (misused ["evaluate", "record", "rate_limit", "limited", "estimate", "flatten", "cost",
        "usage"] name), s))
  fun s => some (.list [s.gate.tokensUsed, s.gate.costUsed, .map s.gate.limitedUntil])

end SecScan.Llm
