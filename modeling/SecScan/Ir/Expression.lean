import SecScan.Ir.Draft
import SecScan.Syntax.Source

/-! Nodes of expressions. The parts of an expression come before it, and all share its parent. -/
namespace SecScan.Ir

open Syntax

/-- A long text is cut, with its digest beside it. -/
def literalAttrs (limit v : Value) : Try (List (String × Attr Nat)) := do
  let kind : List (String × Attr Nat) := [("value_type", .text v.kindName)]
  match v with
  | .text s =>
    if ← Value.more (.nat s.length) limit then
      return kind ++ [("value", .data (← v.upTo limit)), ("value_hash", .text (Digest.sha256 s)),
        ("value_truncated", .flag true)]
    else return kind ++ [("value", .data v)]
  | _ => return kind ++ [("value", .data v)]

def languageAttrs (env : Env) : Value → Make (List (String × Attr Nat))
  | .text s => do
    match ← attempt (none, 0.0) (env.detect s) with
    | (some lang, confidence) =>
      return [("embedded_lang", .text lang), ("embedded_lang_confidence", .data (.float confidence))]
    | (none, _) => return []
  | _ => return []

def targetName : Expr → Make String
  | .name _ n _ => return n
  | e => attempt "" e.source

def addDefIf (name kind scope : String) (id : Nat) : Make Unit :=
  if name == "" then return () else addDef name kind scope id

mutual

def lowerExpr (env : Env) (parent : Nat) : Expr → Make Nat
  | .name l n ctx => do
    let id ← addNode env "Name" l parent env.scope [("name", .text n), ("ctx", .text ctx.kind)]
    if ctx == .load then addUse n "var" env.scope id
    return id
  | .constant l v _ => do
    let attrs ← attempt [] (literalAttrs env.literalLimit v)
    addNode env "Literal" l parent env.scope (attrs ++ (← languageAttrs env v))
  | .lambda l args body => do
    let b ← lowerExpr env parent body
    addNode env "Lambda" l parent env.scope [("params", .texts args.plainNames), ("body_id", .ref b)]
  | .ifExp l test body orelse => do
    let t ← lowerExpr env parent test
    let b ← lowerExpr env parent body
    let o ← lowerExpr env parent orelse
    addNode env "IfExp" l parent env.scope [("test_id", .ref t), ("body_id", .ref b), ("orelse_id", .ref o)]
  | .named l target value => do
    let t ← lowerExpr env parent target
    let v ← lowerExpr env parent value
    let name ← targetName target
    let id ← addNode env "NamedExpr" l parent env.scope
      [("target_id", .ref t), ("target_name", .text name), ("value_id", .ref v)]
    addDefIf name "var" env.scope id
    return id
  | .boolOp l op values => do
    let vs ← lowerAll env parent values
    addNode env "BoolOp" l parent env.scope [("op", .text op.kind), ("values", .list vs)]
  | .unaryOp l op operand => do
    let o ← lowerExpr env parent operand
    addNode env "UnaryOp" l parent env.scope [("op", .text op.kind), ("operand", .ref o)]
  | .list l elts ctx | .tuple l elts ctx => do
    let es ← lowerAll env parent elts
    addNode env "Literal" l parent env.scope [("elts", .list es), ("ctx", .text ctx.kind)]
  | .dict l keys values => do
    let ks ← lowerKeys env parent keys
    let vs ← lowerAll env parent values
    addNode env "Literal" l parent env.scope [("keys", .cell (.nodes ks)), ("values", .list vs)]
  | .set l elts => do
    let es ← lowerAll env parent elts
    addNode env "Literal" l parent env.scope [("elts", .list es)]
  | .listComp l elt gens | .setComp l elt gens | .generator l elt gens => do
    let scope ← newScope env "comp"
    let e ← lowerExpr { env with scope } parent elt
    let gs ← lowerGenerators { env with scope } parent gens
    addNode env "Literal" l parent env.scope [("elt_id", .ref e), ("generators", .rows gs), ("comp_scope", .text scope)]
  | .dictComp l key value gens => do
    let scope ← newScope env "comp"
    let k ← lowerExpr { env with scope } parent key
    let v ← lowerExpr { env with scope } parent value
    let gs ← lowerGenerators { env with scope } parent gens
    addNode env "Literal" l parent env.scope [("key_id", .ref k), ("value_id", .ref v), ("generators", .rows gs),
        ("comp_scope", .text scope)]
  | .binOp l left op right => do
    let a ← lowerExpr env parent left
    let b ← lowerExpr env parent right
    addNode env "BinOp" l parent env.scope [("op", .text op.kind), ("left", .ref a), ("right", .ref b)]
  | .compare l left ops comparators => do
    let a ← lowerExpr env parent left
    let cs ← lowerAll env parent comparators
    addNode env "Compare" l parent env.scope
      [("left", .ref a), ("ops", .texts (ops.map CompareOp.kind)), ("comparators", .list cs)]
  | .call l func args keywords => do
    let f ← lowerExpr env parent func
    let as ← lowerAll env parent args
    let ks ← lowerKeywords env parent keywords
    addNode env "Call" l parent env.scope [("callee_id", .ref f), ("args", .list as), ("keywords", .rows ks)]
  | .attribute l value attr ctx => do
    let v ← lowerExpr env parent value
    addNode env "Attribute" l parent env.scope [("value_id", .ref v), ("attr", .text attr), ("ctx", .text ctx.kind)]
  | .subscript l value slice ctx => do
    let v ← lowerExpr env parent value
    let s ← lowerExpr env parent slice
    addNode env "Subscript" l parent env.scope [("value_id", .ref v), ("slice_id", .ref s), ("ctx", .text ctx.kind)]
  | .await l value => do
    let v ← lowerExpr env parent value
    addNode env "Await" l parent env.scope [("value_id", .ref v)]
  | .yield l value => do
    let v ← lowerOpt env parent value
    addNode env "Yield" l parent env.scope [("value_id", .opt v)]
  | .yieldFrom l value => do
    let v ← lowerExpr env parent value
    addNode env "Yield" l parent env.scope [("value_id", .ref v), ("is_from", .flag true)]
  | e@(.formatted ..) | e@(.joined ..) | e@(.starred ..) | e@(.slice ..) =>
    addNode env "Literal" e.loc parent env.scope
      [("value_type", .text "Unknown"), ("ast_type", .text e.kind), ("unsupported", .flag true)]

def lowerAll (env : Env) (parent : Nat) : List Expr → Make (List Nat)
  | [] => return []
  | e :: es => do
    let id ← lowerExpr env parent e
    return id :: (← lowerAll env parent es)

def lowerOpt (env : Env) (parent : Nat) : Option Expr → Make (Option Nat)
  | none => return none
  | some e => do return some (← lowerExpr env parent e)

def lowerKeys (env : Env) (parent : Nat) : List (Option Expr) → Make (List (Option Nat))
  | [] => return []
  | k :: ks => do
    let id ← lowerOpt env parent k
    return id :: (← lowerKeys env parent ks)

def lowerKeywords (env : Env) (parent : Nat) : List Keyword → Make (List (List (String × Cell Nat)))
  | [] => return []
  | .mk _ name value :: ks => do
    let v ← lowerExpr env parent value
    return [("name", .data (.optText name)), ("value_id", .node (some v))] :: (← lowerKeywords env parent ks)

def lowerGenerators (env : Env) (parent : Nat) : List Comprehension → Make (List (List (String × Cell Nat)))
  | [] => return []
  | .mk target iter ifs isAsync :: gs => do
    let t ← lowerExpr env parent target
    let i ← lowerExpr env parent iter
    let cs ← lowerAll env parent ifs
    addDefIf (← targetName target) "var" env.scope t
    return [("target_id", .node (some t)), ("iter_id", .node (some i)),
        ("ifs", .nodes (cs.map some)), ("is_async", .data (.bool isAsync))] ::
      (← lowerGenerators env parent gs)

end

end SecScan.Ir
