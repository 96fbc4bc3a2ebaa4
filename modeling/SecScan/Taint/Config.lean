import SecScan.Flow.Ssa

/-! What counts as a source, a sink and a sanitizer of tainted data: calls of named functions. -/
namespace SecScan.Taint

/-! Which functions make data harmless, and for what. -/

inductive SanitizerKind where
  | html | url | shell | sql | path | general
  deriving DecidableEq, Repr

def SanitizerKind.text : SanitizerKind → String
  | .html => "HTML"
  | .url => "URL"
  | .shell => "SHELL"
  | .sql => "SQL"
  | .path => "PATH"
  | .general => "GENERAL"

def SanitizerKind.all : List SanitizerKind := [.html, .url, .shell, .sql, .path, .general]

def SanitizerKind.ofText? (s : String) : Option SanitizerKind := all.find? (·.text == s)

/-- Functions with what they protect, in the order in which they became known. -/
abbrev Sanitizers := List (String × SanitizerKind)

namespace Sanitizers

def default : Sanitizers :=
  [("html.escape", .html), ("cgi.escape", .html), ("markupsafe.escape", .html),
   ("urllib.parse.quote", .url), ("urllib.parse.quote_plus", .url),
   ("shlex.quote", .shell), ("pipes.quote", .shell),
   ("os.path.basename", .path), ("ntpath.basename", .path), ("posixpath.basename", .path),
   ("base64.b64encode", .general)]

def names (s : Sanitizers) : List String := s.map (·.1)

end Sanitizers

open Syntax SecScan.Flow

structure Config where
  sources : List String := []
  sinks : List String := []
  sanitizers : List String := []
  deriving Inhabited, Repr

def Config.defaultSources : List String :=
  ["input", "os.getenv", "getenv", "request.args.get", "request.form.get", "request.get_json"]

def Config.defaultSinks : List String :=
  ["exec", "eval", "os.system", "subprocess.run", "subprocess.call", "open", "print"]

def Config.usual : Config :=
  { sources := defaultSources, sinks := defaultSinks, sanitizers := Sanitizers.default.names }

def namesIn (v : Value) : Try (List String) := do return (← v.each).filterMap (·.text?)

/-- Sources and sinks as asked for, or the usual ones, and the known sanitizers. -/
def Config.ofNames (sources sinks : Value) : Try Config := do
  let sources ← if sources.truthy then namesIn sources else pure defaultSources
  let sinks ← if sinks.truthy then namesIn sinks else pure defaultSinks
  return { Config.usual with sources, sinks }

end SecScan.Taint

namespace SecScan.Syntax

/-- `a.b.c` for a chain of attributes on a name. -/
def Expr.dotted? : Expr → Option String
  | .name _ n _ => some n
  | .attribute _ v a _ => v.dotted?.map (· ++ "." ++ a)
  | _ => none

def Expr.callName? : Expr → Option String
  | .call _ f _ _ => f.dotted?
  | _ => none

end SecScan.Syntax

namespace SecScan.Flow.Item

open Syntax Taint

def callAmong (names : List String) (e : Expr) : Option String := e.callName?.filter names.contains

def source? (c : Config) : Item → Option String
  | .stmt (.assign _ _ v _) => callAmong c.sources v
  | .stmt (.expr _ v) => callAmong c.sources v
  | _ => none

def sink? (c : Config) : Item → Option String
  | .stmt (.assign _ _ v _) => callAmong c.sinks v
  | .stmt (.expr _ v) => callAmong c.sinks v
  | _ => none

def sanitizes (c : Config) : Item → Bool
  | .stmt (.assign _ _ v _) | .stmt (.annAssign _ _ _ (some v) _) | .stmt (.augAssign _ _ _ v) =>
    (callAmong c.sanitizers v).isSome
  | _ => false

def isStmt : Item → Bool
  | .stmt _ => true
  | _ => false

end SecScan.Flow.Item

namespace SecScan.Flow.RenamedItem

def loads (i : RenamedItem) : List Version := (i.reads.filter fun r => r.1.ctx == .load).map (·.2)

def defines (i : RenamedItem) : List Version :=
  match i.item with
  | .stmt (.forLoop ..) => []
  | .stmt _ => i.writes.map (·.2)
  | _ => []

end SecScan.Flow.RenamedItem
