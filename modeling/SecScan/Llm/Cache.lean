import SecScan.Data

/-! Answers that are kept between runs. -/
namespace SecScan.Llm

/-! Keys under which answers are kept: equal data has equal keys, whatever the order of its fields. -/

def cacheKey (v : Value) : Try String := do
  return Digest.sha256 (← Json.renderSorted {} v)

/-- How long an answer stays good; without a limit, for ever. -/
structure Freshness where
  ttl : Value := .null

namespace Freshness

def isValid (f : Freshness) (now updated : Value) : Try Bool :=
  if f.ttl.isNull then .ok true else do (← now.minus updated).atMost f.ttl

def shouldRefresh (f : Freshness) (now updated : Value) (force : Bool) : Try Bool :=
  if force then .ok true else do return !(← f.isValid now updated)

end Freshness

/-- An answer and the moment it was entered, as the file gives them. -/
structure CacheEntry where
  response : Value
  updatedAt : Value

structure Cache where
  freshness : Freshness := {}
  entries : List (Value × CacheEntry) := []

namespace Cache

variable (c : Cache)

def value : Value :=
  .map (c.entries.map fun (k, e) => (k, .obj [("response", e.response), ("updated_at", e.updatedAt)]))

def entryOf (v : Value) : Option CacheEntry := do
  return ⟨← v.get? "response", ← v.get? "updated_at"⟩

/-- The entries of a document. One that lacks something spoils them all, and what is no map is
refused. -/
def read (doc : Value) : Try Cache :=
  match doc with
  | .map es => .ok { c with entries := (es.mapM fun e => (entryOf e.2).map (e.1, ·)).getD [] }
  | v => .error (v.lacks "items")

def load (text : String) : Try Cache :=
  if text.isEmpty then .ok { c with entries := [] }
  else do match ← Json.readIfJson text with
    | some doc => c.read doc
    | none => return { c with entries := [] }

def text : Try String := Json.render (Json.indented 2) c.value

/-- The answer kept under a key; one found too old is dropped. -/
def get (now key : Value) : Try (Option Value) × Cache :=
  match key.requireFixed with
  | .error f => (.error f, c)
  | .ok _ => match Value.under? key c.entries with
    | none => (.ok none, c)
    | some e =>
      match c.freshness.isValid now e.updatedAt with
      | .ok true => (.ok (some e.response), c)
      | .ok false => (.ok none, { c with entries := Value.remove key c.entries })
      | .error f => (.error f, c)

def set (now key response : Value) : Cache := { c with entries := Value.enter key ⟨response, now⟩ c.entries }

def clear : Cache := { c with entries := [] }

end Cache

end SecScan.Llm
