import SecScan.Embedded.Language
import SecScan.Ir.Alias
import SecScan.Ir.Statement

/-! The program graph of a module under the given settings, with tags on what a reading of the program
cannot follow. -/
namespace SecScan.Ir

def dynamicCallees : List String := ["eval", "exec", "compile", "__import__", "getattr", "setattr"]

def dynamicAttributes : List String := ["import_module"]

def unpacksKeywords (n : Node Nat) : Bool :=
  match n.attr? "keywords" with
  | some (.rows rows) => rows.any fun r =>
    match r.lookup "name" with
    | some (.data .null) => true
    | _ => false
  | _ => false

def isUnsupported (n : Node Nat) : Bool :=
  match n.attr? "unsupported" with
  | some (.cell (.data (.bool b))) => b
  | _ => false

/-- Whether what is called is known by name and harmless. -/
def hasPlainCallee (nodes : Array (Node Nat)) (n : Node Nat) : Bool :=
  match (n.ref? "callee_id").bind (nodes[·]?) with
  | none => false
  | some callee =>
    if callee.kind == "Name" then
      !((callee.text? "name").map dynamicCallees.contains).getD false
    else if callee.kind == "Attribute" then
      !((callee.text? "attr").map dynamicAttributes.contains).getD false
    else false

def tagDynamicNode (nodes : Array (Node Nat)) (n : Node Nat) : Node Nat :=
  if isUnsupported n then n.addTags ["dynamic", "unscannable"]
  else if n.kind != "Call" then n
  else if !hasPlainCallee nodes n then n.addTags ["dynamic", "unscannable"]
  else if unpacksKeywords n then n.addTags ["dynamic"]
  else n

def Graph.tagDynamic (g : Graph Nat) : Graph Nat :=
  let nodes := g.nodes.toArray
  { g with nodes := g.nodes.map (tagDynamicNode nodes) }

structure Settings where
  literalLimit : Value := .int 200
  stripDocstrings : Bool := false
  aliases : Bool := true
  dynamic : Bool := true

def detectLanguage (yaml : String → Embedded.YamlResult) (s : String) : Try (Option String × Float) := do
  let (lang, confidence) ← Embedded.detect yaml s
  return (lang.map (·.text), confidence)

def parse (s : Settings) (yaml : String → Embedded.YamlResult) (file : String)
    (m : Syntax.Module) : Try (Graph String) := do
  let m := if s.stripDocstrings then m.stripDocstrings else m
  let g ← Graph.ofModule { file, literalLimit := s.literalLimit, detect := detectLanguage yaml } m
  let g := if s.aliases then g.resolveAliases else g
  let g := if s.dynamic then g.tagDynamic else g
  return g.named

end SecScan.Ir
