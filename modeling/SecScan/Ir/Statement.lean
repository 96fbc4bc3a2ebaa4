import SecScan.Ir.Expression
import SecScan.Syntax.Decorator

/-! Nodes of statements, with the flow between them. -/
namespace SecScan.Ir

open Syntax

mutual

def patternNames : Pattern → List String
  | .capture _ none n => n.toList
  | .capture _ (some p) n => n.toList ++ patternNames p
  | .star _ n => n.toList
  | .mapping _ _ ps rest => patternNamesAll ps ++ rest.toList
  | .sequence _ ps => patternNamesAll ps
  | .cls _ _ ps _ attrPs => patternNamesAll ps ++ patternNamesAll attrPs
  | .anyOf _ ps => patternNamesAll ps
  | .value .. | .singleton .. => []

def patternNamesAll : List Pattern → List String
  | [] => []
  | p :: ps => patternNames p ++ patternNamesAll ps

end

def sourceOf (e : Expr) : Make String := attempt "" e.source

def optSourceOf : Option Expr → Make (Option String)
  | none => return none
  | some e => some <$> sourceOf e

def keywordSourceOf (k : Keyword) : Make String := attempt "" (k.render false)

def decoratorAttrs (es : List Expr) : Make (List (String × Attr Nat)) := do
  let metadata ← es.mapM fun e => attempt .null ((Decorator.value ·) <$> Decorator.ofExpr e)
  let texts ← es.mapM sourceOf
  return [("decorators", .texts texts), ("decorator_metadata", .data (.list metadata))]

variable (env : Env)

def addBlock (owner : Nat) (label : String) (body : List Stmt) (fill : Nat → Make (List Nat)) : Make Nat := do
  let id ← addNode env "Block" (body.head?.map Stmt.loc) owner env.scope
    [("label", .text label), ("owner_id", .ref owner), ("stmt_ids", .list [])]
  setAttr id "stmt_ids" (.list (← fill id))
  return id

def addBlockIf (owner : Nat) (label : String) (body : List Stmt) (fill : Nat → Make (List Nat)) : Make (Option Nat) :=
  if body.isEmpty then return none else some <$> addBlock env owner label body fill

/-- A statement's node, reached from the statement before it. -/
def addStmt (kind : String) (loc : Loc) (parent : Nat) (attrs : List (String × Attr Nat)) : Make Nat := do
  let id ← addNode env kind loc parent env.scope attrs
  flowTo env id
  return id

/-- The statements of a list that are reached from the one before. -/
def linkNext (linked : Bool) (prev : Option Nat) (id : Nat) : Make Unit :=
  match linked, prev with
  | true, some p => addEdge p id "flow" none
  | _, _ => return ()

def importedName (a : Alias) : String :=
  match a.asName with
  | none => a.name
  | some "" => a.name
  | some n => n

def importAttrs (names : List Alias) : List (String × Attr Nat) :=
  [("names", .texts (names.map (·.name))), ("asnames", .data (.list (names.map (.optText ·.asName))))]

def defineImports (id : Nat) (names : List Alias) : Make Unit :=
  names.forM fun a => addDef (importedName a) "import" env.scope id

def lowerWithItems (env : Env) (parent : Nat) : List WithItem → Make (List (List (String × Cell Nat)) × List String)
  | [] => return ([], [])
  | i :: is => do
    let c ← lowerExpr env parent i.context
    let v ← lowerOpt env parent i.vars
    let name ← match i.vars with
      | none => pure ""
      | some e => targetName e
    if name != "" then addUse name "var" env.scope parent
    let (rows, names) ← lowerWithItems env parent is
    return ([("context_expr_id", .node (some c)), ("optional_vars_id", .node v)] :: rows,
      if name == "" then names else name :: names)

mutual

/-- Adds a statement; some have no node. -/
def lowerStmt (env : Env) (parent : Nat) : Stmt → Make (Option Nat)
  | .funcDef l isAsync name args body decorators returns _ => do
    let scope := "scope:" ++ name
    let decoratorAttrs ← decoratorAttrs decorators
    let returnText ← optSourceOf returns
    let id ← addNode env "Function" l parent scope ([("name", .text name), ("params", .texts args.plainNames),
        ("returns", .data (.optText returnText))] ++ decoratorAttrs
        ++ [("is_async", .flag isAsync)])
    args.plainNames.forM fun p => addDef p "param" scope id
    let ids ← lowerStmts { env with scope } id false none body
    setAttr id "body_ids" (.list ids)
    flowTo env id
    return id
  | .classDef l name bases keywords body decorators => do
    let scope := "scope:" ++ name
    let decoratorAttrs ← decoratorAttrs decorators
    let baseTexts ← bases.mapM sourceOf
    let keywordTexts ← keywords.mapM keywordSourceOf
    let id ← addNode env "Class" l parent scope
      ([("name", .text name), ("bases", .texts baseTexts), ("keywords", .texts keywordTexts)] ++ decoratorAttrs)
    addDef name "class" env.scope id
    let ids ← lowerStmts { env with scope } id false none body
    setAttr id "body_ids" (.list ids)
    flowTo env id
    return id
  | .assign l targets value _ => do
    let v ← lowerExpr env parent value
    let names ← targets.mapM targetName
    let id ← addNode env "Assign" l parent env.scope [("targets", .texts names), ("value_id", .ref v)]
    names.forM fun n => addDefIf n "var" env.scope id
    flowTo env id
    return id
  | .annAssign l target hint value _ => do
    let v ← lowerOpt env parent value
    let name ← targetName target
    let hintText ← sourceOf hint
    let id ← addNode env "Assign" l parent env.scope
      [("target", .text name), ("value_id", .opt v), ("annotation", .text hintText)]
    addDefIf name "var" env.scope id
    flowTo env id
    return id
  | .augAssign l target op value => do
    let v ← lowerExpr env parent value
    let name ← targetName target
    let id ← addNode env "Assign" l parent env.scope
      [("target", .text name), ("op", .text op.kind), ("value_id", .ref v)]
    if name != "" then
      addUse name "var" env.scope id
      addDef name "var" env.scope id
    flowTo env id
    return id
  | .globalNames _ names => do
    names.forM fun n => touchSymbol n "var" "scope:module" id
    return none
  | .nonlocalNames _ names => do
    names.forM fun n => touchSymbol n "var" env.scope id
    return none
  | .delete l targets => do
    let ts ← lowerAll env parent targets
    addStmt env "Delete" l parent [("targets", .list ts)]
  | .assert l test msg => do
    let t ← lowerExpr env parent test
    let m ← lowerOpt env parent msg
    addStmt env "Assert" l parent [("test_id", .ref t), ("msg_id", .opt m)]
  | .ret l value => do
    let v ← lowerOpt env parent value
    addStmt env "Return" l parent [("value_id", .opt v)]
  | .expr _ value => do
    let id ← lowerExpr env parent value
    flowTo env id
    return id
  | .cond l test body orelse => do
    let t ← lowerExpr env parent test
    let id ← addNode env "If" l parent env.scope [("test_id", .ref t)]
    let b ← addBlock env id "body" body fun p => lowerStmts env p true none body
    let o ← addBlockIf env id "orelse" orelse fun p => lowerStmts env p true none orelse
    addEdge id b "true" t
    o.forM fun o => addEdge id o "false" t
    flowTo env id
    return id
  | .whileLoop l test body orelse => do
    let t ← lowerExpr env parent test
    let id ← addNode env "While" l parent env.scope [("test_id", .ref t)]
    let exit ← addBlock env id "exit" orelse fun p => lowerStmts env p true none orelse
    let inner := { env with loop := some ⟨id, exit, t⟩ }
    let b ← addBlock inner id "body" body fun p => lowerStmts inner p true none body
    addEdge id b "true" t
    addEdge id exit "false" t
    addEdge b id "flow" t
    flowTo env id
    return id
  | .forLoop l isAsync target iter body orelse _ => do
    let i ← lowerExpr env parent iter
    let t ← lowerExpr env parent target
    let id ← addNode env "For" l parent env.scope
      [("target_id", .ref t), ("iter_id", .ref i), ("is_async", .flag isAsync)]
    addDefIf (← targetName target) "var" env.scope id
    let exit ← addBlock env id (if orelse.isEmpty then "exit" else "orelse") orelse
      fun p => lowerStmts env p true none orelse
    let inner := { env with loop := some ⟨id, exit, i⟩ }
    let b ← addBlock inner id "body" body fun p => lowerStmts inner p true none body
    addEdge id b "true" i
    addEdge id exit "false" i
    addEdge b id "flow" i
    flowTo env id
    return id
  | .tryBlock _ true _ _ _ _ => return none
  | .tryBlock l false body handlers orelse final => do
    let id ← addNode env "Try" l parent env.scope []
    let b ← addBlock env id "body" body fun p => lowerStmts env p true none body
    let hs ← lowerHandlers env id handlers
    let o ← addBlockIf env id "orelse" orelse fun p => lowerStmts env p true none orelse
    let f ← addBlockIf env id "finally" final fun p => lowerStmts env p true none final
    addEdge id b "flow" none
    hs.forM fun h => addEdge id h "exception" id
    f.forM fun f => (b :: hs).forM fun h => addEdge h f "flow" none
    o.forM fun o => addEdge b o "flow" none
    flowTo env id
    return id
  | .breakLoop l => do
    let id ← addNode env "Break" l parent env.scope []
    env.loop.forM fun p => addEdge id p.exit "break" p.guard
    flowTo env id
    return id
  | .continueLoop l => do
    let id ← addNode env "Continue" l parent env.scope []
    env.loop.forM fun p => addEdge id p.head "continue" p.guard
    flowTo env id
    return id
  | .withBlock l isAsync items body _ => do
    let (rows, names) ← lowerWithItems env parent items
    let id ← addNode env "With" l parent env.scope [("items", .rows rows), ("is_async", .flag isAsync)]
    names.forM fun n => addDef n "var" env.scope id
    let b ← addBlock env id "body" body fun p => lowerStmts env p true none body
    addEdge id b "flow" none
    flowTo env id
    return id
  | .raise l exc cause => do
    let e ← lowerOpt env parent exc
    let c ← lowerOpt env parent cause
    addStmt env "Raise" l parent [("exc_id", .opt e), ("cause_id", .opt c)]
  | .importNames l names => do
    let id ← addNode env "Import" l parent env.scope (importAttrs names)
    defineImports env id names
    flowTo env id
    return id
  | .importFrom l module names level => do
    let id ← addNode env "Import" l parent env.scope ([("module", .data (.optText module))] ++ importAttrs names
        ++ [("level", .data (.ofOption .nat level))])
    defineImports env id names
    flowTo env id
    return id
  | .matchOn l subject cases => do
    let s ← lowerExpr env parent subject
    let id ← addNode env "Match" l parent env.scope [("subject_id", .ref s), ("cases", .rows [])]
    let rows ← lowerCases env parent id cases
    setAttr id "cases" (.rows rows)
    flowTo env id
    return id
  | .pass _ => return none

/-- The statements of a body in order; in a block each is reached from the one before. -/
def lowerStmts (env : Env) (parent : Nat) (linked : Bool) (prev : Option Nat) : List Stmt → Make (List Nat)
  | [] => return []
  | s :: ss => do
    match ← lowerStmt env parent s with
    | none => lowerStmts env parent linked prev ss
    | some id =>
      linkNext linked prev id
      return id :: (← lowerStmts env parent linked (some id) ss)

def lowerHandlers (env : Env) (owner : Nat) : List Handler → Make (List Nat)
  | [] => return []
  | .mk _ _ _ body :: hs => do
    let b ← addBlock env owner "handler" body fun p => lowerStmts env p true none body
    return b :: (← lowerHandlers env owner hs)

def lowerCases (env : Env) (parent owner : Nat) : List MatchCase → Make (List (List (String × Cell Nat)))
  | [] => return []
  | .mk pattern guard body :: cs => do
    let names := patternNames pattern
    names.forM fun n => addDef n "var" env.scope owner
    let g ← lowerOpt env parent guard
    let b ← addBlock env owner "case" body fun p => lowerStmts env p true none body
    addEdge owner b "flow" g
    return [("pattern", .data (.text pattern.dump)), ("binds", .data (.texts names)),
        ("guard_id", .node g), ("body_block_id", .node (some b))] ::
      (← lowerCases env parent owner cs)

end

def lowerModule (m : Module) : Make Unit := do
  let id ← addNode env "Module" none none env.scope []
  let ids ← lowerStmts env id false none m.body
  setAttr id "body_ids" (.list ids)

def Graph.ofModule (m : Module) : Try (Graph Nat) := ((lowerModule env m).run {}).2.finish

end SecScan.Ir
