import SecScan.Syntax.Tree

/-! Nodes of a tree seen alike: their kind, their place and their children in grammatical order. The
walk of a tree goes level by level. -/
namespace SecScan.Syntax

def Expr.loc : Expr → Loc
  | .boolOp l .. | .named l .. | .binOp l .. | .unaryOp l .. | .lambda l .. | .ifExp l ..
  | .dict l .. | .set l .. | .listComp l .. | .setComp l .. | .dictComp l .. | .generator l ..
  | .await l .. | .yield l .. | .yieldFrom l .. | .compare l .. | .call l .. | .formatted l ..
  | .joined l .. | .constant l .. | .attribute l .. | .subscript l .. | .starred l .. | .name l ..
  | .list l .. | .tuple l .. | .slice l .. => l

def Expr.kind : Expr → String
  | .boolOp .. => "BoolOp" | .named .. => "NamedExpr" | .binOp .. => "BinOp"
  | .unaryOp .. => "UnaryOp" | .lambda .. => "Lambda" | .ifExp .. => "IfExp" | .dict .. => "Dict"
  | .set .. => "Set" | .listComp .. => "ListComp" | .setComp .. => "SetComp"
  | .dictComp .. => "DictComp" | .generator .. => "GeneratorExp" | .await .. => "Await"
  | .yield .. => "Yield" | .yieldFrom .. => "YieldFrom" | .compare .. => "Compare"
  | .call .. => "Call" | .formatted .. => "FormattedValue" | .joined .. => "JoinedStr"
  | .constant .. => "Constant" | .attribute .. => "Attribute" | .subscript .. => "Subscript"
  | .starred .. => "Starred" | .name .. => "Name" | .list .. => "List" | .tuple .. => "Tuple"
  | .slice .. => "Slice"

def Arg.name : Arg → String
  | .mk _ n _ _ => n

/-- The parameters that may be given by place or by name. -/
def Arguments.plainNames : Arguments → List String
  | .mk _ args .. => args.map Arg.name

def Stmt.loc : Stmt → Loc
  | .funcDef l .. | .classDef l .. | .ret l .. | .delete l .. | .assign l .. | .augAssign l ..
  | .annAssign l .. | .forLoop l .. | .whileLoop l .. | .cond l .. | .withBlock l ..
  | .matchOn l .. | .raise l .. | .tryBlock l .. | .assert l .. | .importNames l ..
  | .importFrom l .. | .globalNames l .. | .nonlocalNames l .. | .expr l .. | .pass l
  | .breakLoop l | .continueLoop l => l

def Stmt.kind : Stmt → String
  | .funcDef _ isAsync .. => if isAsync then "AsyncFunctionDef" else "FunctionDef"
  | .classDef .. => "ClassDef" | .ret .. => "Return" | .delete .. => "Delete"
  | .assign .. => "Assign" | .augAssign .. => "AugAssign" | .annAssign .. => "AnnAssign"
  | .forLoop _ isAsync .. => if isAsync then "AsyncFor" else "For"
  | .whileLoop .. => "While" | .cond .. => "If"
  | .withBlock _ isAsync .. => if isAsync then "AsyncWith" else "With"
  | .matchOn .. => "Match" | .raise .. => "Raise"
  | .tryBlock _ star .. => if star then "TryStar" else "Try"
  | .assert .. => "Assert" | .importNames .. => "Import" | .importFrom .. => "ImportFrom"
  | .globalNames .. => "Global" | .nonlocalNames .. => "Nonlocal" | .expr .. => "Expr"
  | .pass .. => "Pass" | .breakLoop .. => "Break" | .continueLoop .. => "Continue"

def Pattern.loc : Pattern → Loc
  | .value l .. | .singleton l .. | .sequence l .. | .mapping l .. | .cls l .. | .star l ..
  | .capture l .. | .anyOf l .. => l

def Pattern.kind : Pattern → String
  | .value .. => "MatchValue" | .singleton .. => "MatchSingleton"
  | .sequence .. => "MatchSequence" | .mapping .. => "MatchMapping" | .cls .. => "MatchClass"
  | .star .. => "MatchStar" | .capture .. => "MatchAs" | .anyOf .. => "MatchOr"

inductive Node where
  | module (m : Module)
  | stmt (s : Stmt)
  | expr (e : Expr)
  | arguments (a : Arguments)
  | arg (a : Arg)
  | keyword (k : Keyword)
  | comprehension (c : Comprehension)
  | withItem (w : WithItem)
  | handler (h : Handler)
  | matchCase (c : MatchCase)
  | pattern (p : Pattern)
  | alias (a : Alias)
  deriving Inhabited

namespace Node

def kind : Node → String
  | .module _ => "Module"
  | .stmt s => s.kind
  | .expr e => e.kind
  | .arguments _ => "arguments"
  | .arg _ => "arg"
  | .keyword _ => "keyword"
  | .comprehension _ => "comprehension"
  | .withItem _ => "withitem"
  | .handler _ => "ExceptHandler"
  | .matchCase _ => "match_case"
  | .pattern p => p.kind
  | .alias _ => "alias"

def loc? : Node → Option Loc
  | .stmt s => some s.loc
  | .expr e => some e.loc
  | .arg (.mk l ..) | .keyword (.mk l ..) | .handler (.mk l ..) => some l
  | .pattern p => some p.loc
  | .alias a => some a.loc
  | .module _ | .arguments _ | .comprehension _ | .withItem _ | .matchCase _ => none

def exprs (l : List Expr) : List Node := l.map .expr
def stmts (l : List Stmt) : List Node := l.map .stmt
def opt (e : Option Expr) : List Node := (e.map .expr).toList

end Node

open Node in
def Expr.children : Expr → List Node
  | .constant .. | .name .. => []
  | .unaryOp _ _ e | .await _ e | .yieldFrom _ e | .attribute _ e _ _ | .starred _ e _ => [.expr e]
  | .boolOp _ _ es | .set _ es | .joined _ es | .list _ es _ | .tuple _ es _ => exprs es
  | .named _ a b | .binOp _ a _ b | .subscript _ a b _ => [.expr a, .expr b]
  | .lambda _ a b => [.arguments a, .expr b]
  | .ifExp _ t b o => [.expr t, .expr b, .expr o]
  | .dict _ ks vs => exprs (ks.filterMap id) ++ exprs vs
  | .listComp _ e gs | .setComp _ e gs | .generator _ e gs => .expr e :: gs.map .comprehension
  | .dictComp _ k v gs => .expr k :: .expr v :: gs.map .comprehension
  | .yield _ e => opt e
  | .compare _ l _ cs => .expr l :: exprs cs
  | .call _ f as ks => .expr f :: exprs as ++ ks.map .keyword
  | .formatted _ v _ s => .expr v :: opt s
  | .slice _ l u s => opt l ++ opt u ++ opt s

open Node in
def Pattern.children : Pattern → List Node
  | .value _ e => [.expr e]
  | .singleton .. => []
  | .sequence _ ps | .anyOf _ ps => ps.map .pattern
  | .mapping _ ks ps _ => exprs ks ++ ps.map .pattern
  | .cls _ c ps _ aps => .expr c :: ps.map .pattern ++ aps.map .pattern
  | .star .. => []
  | .capture _ p _ => (p.map .pattern).toList

open Node in
def Stmt.children : Stmt → List Node
  | .funcDef _ _ _ args body decs result _ => .arguments args :: stmts body ++ exprs decs ++ opt result
  | .classDef _ _ bases kws body decs => exprs bases ++ kws.map .keyword ++ stmts body ++ exprs decs
  | .ret _ v => opt v
  | .delete _ ts => exprs ts
  | .assign _ ts v _ => exprs ts ++ [.expr v]
  | .augAssign _ t _ v => [.expr t, .expr v]
  | .annAssign _ t a v _ => [.expr t, .expr a] ++ opt v
  | .forLoop _ _ t i b o _ => [.expr t, .expr i] ++ stmts b ++ stmts o
  | .whileLoop _ t b o | .cond _ t b o => .expr t :: stmts b ++ stmts o
  | .withBlock _ _ is b _ => is.map .withItem ++ stmts b
  | .matchOn _ s cs => .expr s :: cs.map .matchCase
  | .raise _ e c => opt e ++ opt c
  | .tryBlock _ _ b hs o f => stmts b ++ hs.map .handler ++ stmts o ++ stmts f
  | .assert _ t m => .expr t :: opt m
  | .importNames _ ns | .importFrom _ _ ns _ => ns.map .alias
  | .globalNames .. | .nonlocalNames .. => []
  | .expr _ v => [.expr v]
  | .pass _ | .breakLoop _ | .continueLoop _ => []

namespace Node

/-- Children in the order of the grammar's fields. -/
def children : Node → List Node
  | .module m => stmts m.body
  | .stmt s => s.children
  | .expr e => e.children
  | .arguments (.mk po as va ko kds kw ds) =>
    po.map .arg ++ as.map .arg ++ (va.map .arg).toList ++ ko.map .arg
      ++ exprs (kds.filterMap id) ++ (kw.map .arg).toList ++ exprs ds
  | .arg (.mk _ _ ann _) => opt ann
  | .keyword (.mk _ _ v) => [.expr v]
  | .comprehension (.mk t i ifs _) => [.expr t, .expr i] ++ exprs ifs
  | .withItem w => .expr w.context :: opt w.vars
  | .handler (.mk _ t _ b) => opt t ++ stmts b
  | .matchCase (.mk p g b) => .pattern p :: opt g ++ stmts b
  | .pattern p => p.children
  | .alias _ => []

end Node

end SecScan.Syntax
