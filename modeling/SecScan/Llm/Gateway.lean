import SecScan.Llm.Breaker
import SecScan.Llm.Cache

/-! One door to the model: kept answers first, then the model itself as far as the breaker admits
requests. -/
namespace SecScan.Llm

structure Prompt where
  system : Value
  user : Value

structure Backend where
  provider : Value := .null
  model : Value := .null

/-- Breakers are shared among gateways to the same model. -/
def Backend.breakerKey (b : Backend) (kind : String) : Value :=
  if b.provider.truthy && b.model.truthy then
    .text (b.provider.display ++ ":" ++ b.model.display)
  else if b.provider.truthy then b.provider
  else .text kind

/-- A moment on both clocks: the time of day, and the steady time of the breaker. -/
structure Moment (τ : Type) where
  wall : Value
  steady : τ

structure Gateway (τ : Type) where
  backend : Backend
  breaker : Breaker τ
  cache : Cache

namespace Gateway

variable {τ : Type}

def key (g : Gateway τ) (q : Prompt) : Try String :=
  cacheKey (.obj [("system_prompt", q.system), ("user_prompt", q.user),
    ("provider", g.backend.provider), ("model", g.backend.model)])

structure Outcome where
  answer : Try Value
  asked : Bool := false

def refused : Fault := .failed (some "Circuit breaker open: AI analysis halted")

/-- Asks the model, which would say `reply` and be done at another moment, under a key that is not in
the cache. -/
def ask [Sub τ] [LE τ] [DecidableLE τ] (g : Gateway τ) (now done : Moment τ) (key : String)
    (reply : Try Value) : Outcome × Gateway τ :=
  match g.breaker.allow now.steady with
  | (false, b) => (⟨.error refused, false⟩, { g with breaker := b })
  | (true, b) =>
    match reply with
    | .error f => (⟨.error f, true⟩, { g with breaker := b.recordFailure done.steady })
    | .ok v => (⟨.ok v, true⟩, { g with breaker := b.recordSuccess, cache := g.cache.set done.wall (.text key) v })

def analyze [Sub τ] [LE τ] [DecidableLE τ] (g : Gateway τ) (now done : Moment τ) (q : Prompt)
    (reply : Try Value) : Outcome × Gateway τ :=
  match g.key q with
  | .error f => (⟨.error f, false⟩, g)
  | .ok key =>
    match g.cache.get now.wall (.text key) with
    | (.error f, c) => (⟨.error f, false⟩, { g with cache := c })
    | (.ok (some .null), c) | (.ok none, c) => ask { g with cache := c } now done key reply
    | (.ok (some v), c) => (⟨.ok v, false⟩, { g with cache := c })

end Gateway

/-! A chain of providers, tried one after another. -/

structure Chain where
  providers : List Value
  index : Nat := 0

namespace Chain

/-- The first choice, and a list of further ones. -/
def of (primary fallbacks : Value) : Try Chain := do
  match ← Value.plus (.list [primary]) fallbacks with
  | .list l => return ⟨l, 0⟩
  | _ => throw .wrongKind

def current (c : Chain) : Value := c.providers[c.index]?.getD (c.providers.getLastD .null)

def next (c : Chain) : Option Value × Chain :=
  match c.providers[c.index + 1]? with
  | some p => (some p, { c with index := c.index + 1 })
  | none => (none, c)

def reset (c : Chain) : Chain := { c with index := 0 }

end Chain

end SecScan.Llm
