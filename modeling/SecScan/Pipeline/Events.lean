import SecScan.Data

/-! Events of a run and what is to be done at them. -/
namespace SecScan.Pipeline

def stages : List String :=
  ["static_scan", "semgrep", "ir", "graph_build", "baseline", "ssa", "taint", "llm", "privacy"]

def events : List String :=
  ["pre_analysis"] ++ stages.flatMap (fun s => ["pre_" ++ s, s, "post_" ++ s]) ++ ["post_analysis"]

/-- Something done at an event: it may change the state of the run, also when it fails. -/
abbrev Handler (σ : Type) := σ → Try Unit × σ

/-- Handlers by event, each in the order in which they were entered. The events of a run are texts,
but there may be handlers for anything else. -/
abbrev Handlers (σ : Type) := List (Value × List (Handler σ))

namespace Handlers

variable {σ : Type} (h : Handlers σ) (event : Value)

def of : List (Handler σ) := (Value.under? event h).getD []

def register (f : Handler σ) : Handlers σ := Value.enter event (h.of event ++ [f]) h

def apply (registry bus : Handlers σ) : Handlers σ :=
  registry.foldl (fun bus (event, fs) => fs.foldl (·.register event) bus) bus

/-- Runs handlers until one fails. -/
def runAll (s : σ) : List (Handler σ) → Try Unit × σ
  | [] => (.ok (), s)
  | f :: rest => match f s with
    | (.ok (), s) => runAll s rest
    | (.error e, s) => (.error e, s)

def emit (s : σ) : Try Unit × σ := runAll s (h.of event)

end Handlers

structure Plugin (σ : Type) where
  name : String
  install : Handlers σ → Try (Handlers σ)

/-- The part that comes with every run: it looks at a run before its analysis and after its versions
have been named. What it does is given with the run. -/
def defaultPlugin {σ : Type} (before after : Handler σ) : Plugin σ :=
  { name := "pipeline_default"
    install := fun h => .ok ((h.register (.text "pre_analysis") before).register (.text "post_ssa") after) }

def pluginPackage : String := "src.plugins"

def packageName (v : Value) : Try String := do
  let name ← v.asText "startswith"
  if name.isEmpty then throw (.invalid none)
  if Text.hasPrefix name "." then throw .wrongKind
  return name

def discover {σ : Type} (package : String) (before after : Handler σ := fun s => (.ok (), s)) : List (Plugin σ) :=
  if package == pluginPackage || package == pluginPackage ++ ".pipeline" then [defaultPlugin before after]
  else []

/-- The handlers of a run and whether the plugins have been asked already. -/
structure Registry (σ : Type) where
  handlers : Handlers σ := []
  loaded : Bool := false

namespace Registry

variable {σ : Type} (r : Registry σ) (plugins : List (Plugin σ))

def install : List String × Registry σ :=
  plugins.foldl (fun (names, r) p => match p.install r.handlers with
    | .ok h => (names ++ [p.name], { r with handlers := h })
    | .error _ => (names, r)) ([], r)

def load : List String × Registry σ :=
  if r.loaded then ([], r)
  else let (names, r) := r.install plugins; (names, { r with loaded := true })

def counts : List (Value × Nat) := r.handlers.map fun (e, fs) => (e, fs.length)

end Registry

end SecScan.Pipeline
