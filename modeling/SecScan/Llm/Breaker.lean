import SecScan.Data

/-! A circuit breaker: after failures in a row it refuses requests, and after a pause it admits one
request at a time to find out whether the service is back. Time is an argument of every step. -/
namespace SecScan.Llm

inductive Phase where
  | closed
  | opened
  | halfOpen
  deriving DecidableEq, Repr, Inhabited

def Phase.text : Phase → String
  | .closed => "closed"
  | .opened => "open"
  | .halfOpen => "half_open"

/-- The least count that reaches a threshold; none if no count does. -/
abbrev Threshold := Option Nat

namespace Threshold

/-- A threshold is one at least. -/
def ofInt (n : Int) : Threshold := some (max 1 n).toNat

def reached (t : Threshold) (n : Nat) : Bool := t.any (· ≤ n)

end Threshold

structure BreakerConfig (τ : Type) where
  failureThreshold : Threshold := .ofInt 3
  recovery : τ
  successThreshold : Threshold := .ofInt 1

structure Breaker (τ : Type) where
  failureThreshold : Threshold
  recovery : τ
  successThreshold : Threshold
  phase : Phase := .closed
  failures : Nat := 0
  openedAt : Option τ := none
  successes : Nat := 0
  inFlight : Bool := false

namespace Breaker

variable {τ : Type}

/-- The pause is never negative. -/
def of [Zero τ] [LT τ] [DecidableLT τ] (c : BreakerConfig τ) : Breaker τ :=
  { failureThreshold := c.failureThreshold
    recovery := if 0 < c.recovery then c.recovery else 0
    successThreshold := c.successThreshold }

variable (b : Breaker τ)

def trip (now : τ) : Breaker τ :=
  { b with phase := .opened, openedAt := some now, failures := 0, successes := 0 }

def halfOpen : Breaker τ :=
  { b with phase := .halfOpen, openedAt := none, successes := 0, inFlight := false }

def close : Breaker τ :=
  { b with phase := .closed, openedAt := none, failures := 0, successes := 0, inFlight := false }

def allow [Sub τ] [LE τ] [DecidableLE τ] (b : Breaker τ) (now : τ) : Bool × Breaker τ :=
  match b.phase with
  | .opened =>
    match b.openedAt with
    | none => (false, b)
    | some t =>
      if b.recovery ≤ now - t then (true, { b.halfOpen with inFlight := true }) else (false, b)
  | .halfOpen => if b.inFlight then (false, b) else (true, { b with inFlight := true })
  | .closed => (true, b)

def recordSuccess : Breaker τ :=
  match b.phase with
  | .halfOpen =>
    let b := { b with inFlight := false, successes := b.successes + 1 }
    if b.successThreshold.reached b.successes then b.close else b
  | .closed => { b with failures := 0 }
  | .opened => b

def recordFailure (now : τ) : Breaker τ :=
  match b.phase with
  | .halfOpen => { b with inFlight := false }.trip now
  | .closed =>
    let b := { b with failures := b.failures + 1 }
    if b.failureThreshold.reached b.failures then b.trip now else b
  | .opened => b

end Breaker

end SecScan.Llm

/-! Circuit breakers as they are configured, and those that are shared under a key. -/
namespace SecScan.Llm

/-- Thresholds and a pause that may be numbers of any kind. -/
structure BreakerSettings where
  failureThreshold : Value := .int 3
  recovery : Value := .float 30.0
  successThreshold : Value := .int 1

namespace BreakerSettings

def names : List String := ["failure_threshold", "recovery_timeout_seconds", "half_open_success_threshold"]

def ofValue (c : Value) : Try BreakerSettings := do
  c.onlyFields names
  return ⟨c.getD "failure_threshold" (.int 3), c.getD "recovery_timeout_seconds" (.float 30.0),
    c.getD "half_open_success_threshold" (.int 1)⟩

/-- Thresholds below one are one, and a pause below zero is zero. -/
def bounded (c : BreakerSettings) : Try BreakerSettings := do
  return ⟨← Value.larger (.int 1) c.failureThreshold, ← Value.larger (.float 0.0) c.recovery,
    ← Value.larger (.int 1) c.successThreshold⟩

def thresholdOf (v : Value) : Threshold :=
  match Number.ofValue? v with
  | some (.whole n) => .ofInt n
  | some (.real x) =>
    if x.isInf then none
    else
      let n := Decimal.truncate x
      .ofInt (if Decimal.compareInt n x == some .lt then n + 1 else n)
  | none => .ofInt 1

def breaker (c : BreakerSettings) : Breaker Number :=
  .of { failureThreshold := thresholdOf c.failureThreshold
        recovery := (Number.ofValue? c.recovery).getD (.real 0.0)
        successThreshold := thresholdOf c.successThreshold }

end BreakerSettings

abbrev Breakers := List (Value × BreakerSettings × Breaker Number)

/-- The breaker under a key and its number; the first settings asked for are the ones that hold. -/
def Breakers.get (r : Breakers) (key : Value) (c : BreakerSettings) : Try (Nat × BreakerSettings × Breakers) := do
  key.requireFixed
  match r.findIdx? (fun e => Value.same e.1 key), Value.under? key r with
  | some n, some (c, _) => return (n, c, r)
  | _, _ =>
    let c ← c.bounded
    return (r.length, c, r ++ [(key, c, c.breaker)])

end SecScan.Llm
