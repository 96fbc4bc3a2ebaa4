import SecScan.Privacy.Naming
import SecScan.Syntax.Source

/-! Replaces the names of a program by masked ones. Attributes, keywords, imports and type hints stay
as they are. -/
namespace SecScan.Privacy

open Syntax

def isDunder (name : String) : Bool := Text.hasPrefix name "__" && Text.hasSuffix name "__"

variable (p : Policy)

mutual

def maskExpr : Expr → Mask Expr
  | .boolOp l op vs => return .boolOp l op (← maskAll vs)
  | .named l t v => do
    let t ← maskExpr t
    return .named l t (← maskExpr v)
  | .binOp l a op b => do
    let a ← maskExpr a
    return .binOp l a op (← maskExpr b)
  | .unaryOp l op e => return .unaryOp l op (← maskExpr e)
  | .lambda l args b => do
    let args ← maskArguments args
    return .lambda l args (← maskExpr b)
  | .ifExp l t b o => do
    let t ← maskExpr t
    let b ← maskExpr b
    return .ifExp l t b (← maskExpr o)
  | .dict l ks vs => do
    let ks ← maskOptAll ks
    return .dict l ks (← maskAll vs)
  | .set l es => return .set l (← maskAll es)
  | .listComp l e gs => do
    let e ← maskExpr e
    return .listComp l e (← maskGenerators gs)
  | .setComp l e gs => do
    let e ← maskExpr e
    return .setComp l e (← maskGenerators gs)
  | .dictComp l k v gs => do
    let k ← maskExpr k
    let v ← maskExpr v
    return .dictComp l k v (← maskGenerators gs)
  | .generator l e gs => do
    let e ← maskExpr e
    return .generator l e (← maskGenerators gs)
  | .await l e => return .await l (← maskExpr e)
  | .yield l e => return .yield l (← maskOpt e)
  | .yieldFrom l e => return .yieldFrom l (← maskExpr e)
  | .compare l a ops bs => do
    let a ← maskExpr a
    return .compare l a ops (← maskAll bs)
  | .call l f args ks => do
    let f ← maskExpr f
    let args ← maskAll args
    return .call l f args (← maskKeywords ks)
  | .formatted l v c s => do
    let v ← maskExpr v
    return .formatted l v c (← maskOpt s)
  | .joined l vs => return .joined l (← maskAll vs)
  | .constant l v k => return .constant l v k
  | .attribute l v a ctx => return .attribute l (← maskExpr v) a ctx
  | .subscript l v s ctx => do
    let v ← maskExpr v
    return .subscript l v (← maskExpr s) ctx
  | .starred l v ctx => return .starred l (← maskExpr v) ctx
  | .name l n ctx => do
    if constantNames.contains n then return .name l n ctx
    return .name l (← maskName p n "VAR") ctx
  | .list l es ctx => return .list l (← maskAll es) ctx
  | .tuple l es ctx => return .tuple l (← maskAll es) ctx
  | .slice l a b c => do
    let a ← maskOpt a
    let b ← maskOpt b
    return .slice l a b (← maskOpt c)

def maskAll : List Expr → Mask (List Expr)
  | [] => return []
  | e :: es => do
    let e ← maskExpr e
    return e :: (← maskAll es)

def maskOpt : Option Expr → Mask (Option Expr)
  | none => return none
  | some e => return some (← maskExpr e)

def maskOptAll : List (Option Expr) → Mask (List (Option Expr))
  | [] => return []
  | e :: es => do
    let e ← maskOpt e
    return e :: (← maskOptAll es)

def maskKeywords : List Keyword → Mask (List Keyword)
  | [] => return []
  | .mk l n v :: ks => do
    let v ← maskExpr v
    return .mk l n v :: (← maskKeywords ks)

def maskGenerators : List Comprehension → Mask (List Comprehension)
  | [] => return []
  | .mk t i ifs isAsync :: gs => do
    let t ← maskExpr t
    let i ← maskExpr i
    let ifs ← maskAll ifs
    return .mk t i ifs isAsync :: (← maskGenerators gs)

def maskArg : Arg → Mask Arg
  | .mk l n hint note => do
    if n == "self" || n == "cls" then return .mk l n hint note
    let label := (hint.map labelOfHint).getD "ARG"
    setType n label
    return .mk l (← maskName p n label) hint note

def maskArgs : List Arg → Mask (List Arg)
  | [] => return []
  | a :: as => do
    let a ← maskArg a
    return a :: (← maskArgs as)

def maskOptArg : Option Arg → Mask (Option Arg)
  | none => return none
  | some a => return some (← maskArg a)

def maskArguments : Arguments → Mask Arguments
  | .mk posOnly args vararg kwOnly kwDefaults kwarg defaults => do
    let posOnly ← maskArgs posOnly
    let args ← maskArgs args
    let vararg ← maskOptArg vararg
    let kwOnly ← maskArgs kwOnly
    let kwDefaults ← maskOptAll kwDefaults
    let kwarg ← maskOptArg kwarg
    return .mk posOnly args vararg kwOnly kwDefaults kwarg (← maskAll defaults)

end

mutual

def maskPattern : Pattern → Mask Pattern
  | .value l e => return .value l (← maskExpr p e)
  | .singleton l v => return .singleton l v
  | .sequence l ps => return .sequence l (← maskPatterns ps)
  | .mapping l keys ps rest => do
    let keys ← maskAll p keys
    return .mapping l keys (← maskPatterns ps) rest
  | .cls l c ps attrs attrPs => do
    let c ← maskExpr p c
    let ps ← maskPatterns ps
    return .cls l c ps attrs (← maskPatterns attrPs)
  | .star l n => return .star l n
  | .capture l none n => return .capture l none n
  | .capture l (some q) n => return .capture l (some (← maskPattern q)) n
  | .anyOf l ps => return .anyOf l (← maskPatterns ps)

def maskPatterns : List Pattern → Mask (List Pattern)
  | [] => return []
  | q :: qs => do
    let q ← maskPattern q
    return q :: (← maskPatterns qs)

end

variable (p : Policy)

def maskWithItem (i : WithItem) : Mask WithItem := do
  let context ← maskExpr p i.context
  return { context, vars := ← maskOpt p i.vars }

/-- The target of a hinted assignment is masked only if it is a name. -/
def maskHinted (hint : Expr) : Expr → Mask Expr
  | .name l n ctx => do
    setType n (labelOfHint hint)
    return .name l (← maskName p n (labelOfHint hint)) ctx
  | e => return e

/-- The value of a hinted assignment: a plain name is entered into the table, and stays. -/
def maskHintedValue : Option Expr → Mask (Option Expr)
  | some (.name l n ctx) => do
    let _ ← maskExpr p (.name l n ctx)
    return some (.name l n ctx)
  | e => maskOpt p e

/-- The name of a function; one that means something to the language stays. -/
def maskFunction (name : String) : Mask String :=
  if isDunder name then return name else maskName p name "FUNC"

def suggestTypes (value : Expr) (targets : List Expr) : Mask Unit :=
  targets.forM fun
    | .name _ n _ => suggestType n (labelOfValue value)
    | _ => return ()

mutual

def maskStmt : Stmt → Mask Stmt
  | .funcDef l isAsync name args body ds returns note => do
    let name ← maskFunction p name
    let args ← maskArguments p args
    let body ← maskBody body
    let ds ← maskAll p ds
    return .funcDef l isAsync name args body ds (← maskOpt p returns) note
  | .classDef l name bases ks body ds => do
    let name ← maskName p name "CLASS"
    let bases ← maskAll p bases
    let ks ← maskKeywords p ks
    let body ← maskBody body
    return .classDef l name bases ks body (← maskAll p ds)
  | .ret l v => return .ret l (← maskOpt p v)
  | .delete l ts => return .delete l (← maskAll p ts)
  | .assign l ts v note => do
    suggestTypes v ts
    let ts ← maskAll p ts
    return .assign l ts (← maskExpr p v) note
  | .augAssign l t op v => do
    let t ← maskExpr p t
    return .augAssign l t op (← maskExpr p v)
  | .annAssign l t hint v simple => do
    let t ← maskHinted p hint t
    return .annAssign l t hint (← maskHintedValue p v) simple
  | .forLoop l isAsync t i body orelse note => do
    let t ← maskExpr p t
    let i ← maskExpr p i
    let body ← maskBody body
    return .forLoop l isAsync t i body (← maskBody orelse) note
  | .whileLoop l t body orelse => do
    let t ← maskExpr p t
    let body ← maskBody body
    return .whileLoop l t body (← maskBody orelse)
  | .cond l t body orelse => do
    let t ← maskExpr p t
    let body ← maskBody body
    return .cond l t body (← maskBody orelse)
  | .withBlock l isAsync items body note => do
    let items ← items.mapM (maskWithItem p)
    return .withBlock l isAsync items (← maskBody body) note
  | .matchOn l s cases => do
    let s ← maskExpr p s
    return .matchOn l s (← maskCases cases)
  | .raise l e c => do
    let e ← maskOpt p e
    return .raise l e (← maskOpt p c)
  | .tryBlock l star body handlers orelse final => do
    let body ← maskBody body
    let handlers ← maskHandlers handlers
    let orelse ← maskBody orelse
    return .tryBlock l star body handlers orelse (← maskBody final)
  | .assert l t m => do
    let t ← maskExpr p t
    return .assert l t (← maskOpt p m)
  | .expr l e => return .expr l (← maskExpr p e)
  | s@(.importNames ..) | s@(.importFrom ..) | s@(.globalNames ..) | s@(.nonlocalNames ..)
  | s@(.pass ..) | s@(.breakLoop ..) | s@(.continueLoop ..) => return s

def maskBody : List Stmt → Mask (List Stmt)
  | [] => return []
  | s :: ss => do
    let s ← maskStmt s
    return s :: (← maskBody ss)

def maskHandlers : List Handler → Mask (List Handler)
  | [] => return []
  | .mk l type name body :: hs => do
    let type ← maskOpt p type
    let body ← maskBody body
    return .mk l type name body :: (← maskHandlers hs)

def maskCases : List MatchCase → Mask (List MatchCase)
  | [] => return []
  | .mk q guard body :: cs => do
    let q ← maskPattern p q
    let guard ← maskOpt p guard
    let body ← maskBody body
    return .mk q guard body :: (← maskCases cs)

end

def maskModule (m : Module) : Module × Table :=
  let (body, t) := (maskBody p m.body).run {}
  ({ body }, t)

def mask (m : Module) : Try (String × List (String × String)) := do
  let (m, t) := maskModule p m
  return (← m.source, t.entries)

end SecScan.Privacy
