import SecScan.Syntax.Source

/-! What a decorator says: its name, and for routes the path and the methods. -/
namespace SecScan.Syntax

structure Decorator where
  raw : String
  name : Option String := none
  target : Option String := none
  path : Option String := none
  methods : Option (List Value) := none
  options : List (Option String × String) := []

namespace Decorator

variable (d : Decorator)

def named : Expr → Decorator
  | .attribute _ (.name _ n _) a _ => { d with name := some a, target := some (n ++ "." ++ a) }
  | .attribute _ _ a _ => { d with name := some a }
  | .name _ n _ => { d with name := some n, target := some n }
  | _ => d

def constantValue? : Expr → Option Value
  | .constant _ v _ => some v
  | _ => none

/-- The methods a decorator lists; a value that is neither a list nor a constant tells nothing. -/
def methodsOf : Expr → Option (List Value)
  | .list _ es _ => some (es.filterMap constantValue?)
  | .constant _ v _ => some [v]
  | _ => none

def putOption (k : Option String) (s : String) : List (Option String × String) → List (Option String × String)
  | [] => [(k, s)]
  | (k', s') :: rest => if k' == k then (k', s) :: rest else (k', s') :: putOption k s rest

def withKeyword : Keyword → Try Decorator
  | .mk _ (some "methods") v => .ok { d with methods := (methodsOf v).or d.methods }
  | .mk _ k v => do return { d with options := putOption k (← v.source) d.options }

def ofExpr (e : Expr) : Try Decorator := do
  let d : Decorator := { raw := ← e.source }
  match e with
  | .call _ f args keywords =>
    let path := match args with
      | .constant _ (.text s) _ :: _ => some s
      | _ => none
    keywords.foldlM withKeyword { d.named f with path }
  | e => return d.named e

def routeNames : List String :=
  ["route", "get", "post", "put", "delete", "patch", "head", "options", "trace", "connect"]

def isRoute : Bool :=
  match d.name with
  | none => false
  | some "" => false
  | some n => routeNames.contains (Text.lower n) || d.path.isSome

def optionsValue : Value := .map (d.options.map fun (k, s) => (Value.optText k, .text s))

def value : Value :=
  .obj ([("raw", .text d.raw), ("type", .optText d.name), ("route_path", .optText d.path),
    ("methods", .ofOption .list d.methods), ("kwargs", d.optionsValue)]
    ++ (d.target.map fun t => ("decorator_target", Value.text t)).toList)

def route? : Option Value :=
  if d.isRoute then
    let methods := match d.methods with
      | none => [Value.text "GET"]
      | some [] => [Value.text "GET"]
      | some l => l
    some (.obj [("path", .optText d.path), ("methods", .list methods),
      ("decorator_type", .optText d.name), ("target", .optText d.target),
      ("extra_kwargs", d.optionsValue)])
  else none

end Decorator

end SecScan.Syntax
