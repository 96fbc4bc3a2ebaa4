import SecScan.Data

/-! Syntax trees of Python modules. Lines count from one, columns are byte offsets in their line. -/
namespace SecScan.Syntax

structure Loc where
  line : Nat
  col : Nat
  endLine : Nat
  endCol : Nat
  deriving DecidableEq, Repr, Inhabited

inductive Context where
  | load | store | del
  deriving DecidableEq, Repr, Inhabited

inductive BoolOp where
  | and | or
  deriving DecidableEq, Repr, Inhabited

inductive BinOp where
  | add | sub | mult | matMult | div | mod | pow | lShift | rShift | bitOr | bitXor | bitAnd
  | floorDiv
  deriving DecidableEq, Repr, Inhabited

inductive UnaryOp where
  | invert | not | plus | minus
  deriving DecidableEq, Repr, Inhabited

inductive CompareOp where
  | eq | notEq | lt | ltE | gt | gtE | same | notSame | member | notMember
  deriving DecidableEq, Repr, Inhabited

mutual

inductive Expr where
  | boolOp (loc : Loc) (op : BoolOp) (values : List Expr)
  | named (loc : Loc) (target value : Expr)
  | binOp (loc : Loc) (left : Expr) (op : BinOp) (right : Expr)
  | unaryOp (loc : Loc) (op : UnaryOp) (operand : Expr)
  | lambda (loc : Loc) (args : Arguments) (body : Expr)
  | ifExp (loc : Loc) (test body orelse : Expr)
  | dict (loc : Loc) (keys : List (Option Expr)) (values : List Expr)
  | set (loc : Loc) (elts : List Expr)
  | listComp (loc : Loc) (elt : Expr) (generators : List Comprehension)
  | setComp (loc : Loc) (elt : Expr) (generators : List Comprehension)
  | dictComp (loc : Loc) (key value : Expr) (generators : List Comprehension)
  | generator (loc : Loc) (elt : Expr) (generators : List Comprehension)
  | await (loc : Loc) (value : Expr)
  | yield (loc : Loc) (value : Option Expr)
  | yieldFrom (loc : Loc) (value : Expr)
  | compare (loc : Loc) (left : Expr) (ops : List CompareOp) (comparators : List Expr)
  | call (loc : Loc) (func : Expr) (args : List Expr) (keywords : List Keyword)
  | formatted (loc : Loc) (value : Expr) (conversion : Int) (spec : Option Expr)
  | joined (loc : Loc) (values : List Expr)
  | constant (loc : Loc) (value : Value) (kind : Option String)
  | attribute (loc : Loc) (value : Expr) (attr : String) (ctx : Context)
  | subscript (loc : Loc) (value slice : Expr) (ctx : Context)
  | starred (loc : Loc) (value : Expr) (ctx : Context)
  | name (loc : Loc) (id : String) (ctx : Context)
  | list (loc : Loc) (elts : List Expr) (ctx : Context)
  | tuple (loc : Loc) (elts : List Expr) (ctx : Context)
  | slice (loc : Loc) (lower upper step : Option Expr)

inductive Arguments where
  | mk (posOnly args : List Arg) (vararg : Option Arg) (kwOnly : List Arg)
      (kwDefaults : List (Option Expr)) (kwarg : Option Arg) (defaults : List Expr)

inductive Arg where
  | mk (loc : Loc) (name : String) (hint : Option Expr) (typeComment : Option String)

inductive Keyword where
  | mk (loc : Loc) (name : Option String) (value : Expr)

inductive Comprehension where
  | mk (target iter : Expr) (ifs : List Expr) (isAsync : Bool)

end

instance : Inhabited Expr := ⟨.constant default .null none⟩

inductive Pattern where
  | value (loc : Loc) (value : Expr)
  | singleton (loc : Loc) (value : Value)
  | sequence (loc : Loc) (patterns : List Pattern)
  | mapping (loc : Loc) (keys : List Expr) (patterns : List Pattern) (rest : Option String)
  | cls (loc : Loc) (cls : Expr) (patterns : List Pattern) (attrs : List String) (attrPatterns : List Pattern)
  | star (loc : Loc) (name : Option String)
  | capture (loc : Loc) (pattern : Option Pattern) (name : Option String)
  | anyOf (loc : Loc) (patterns : List Pattern)

structure Alias where
  loc : Loc
  name : String
  asName : Option String

structure WithItem where
  context : Expr
  vars : Option Expr

mutual

inductive Stmt where
  | funcDef (loc : Loc) (isAsync : Bool) (name : String) (args : Arguments) (body : List Stmt)
      (decorators : List Expr) (returns : Option Expr) (typeComment : Option String)
  | classDef (loc : Loc) (name : String) (bases : List Expr) (keywords : List Keyword)
      (body : List Stmt) (decorators : List Expr)
  | ret (loc : Loc) (value : Option Expr)
  | delete (loc : Loc) (targets : List Expr)
  | assign (loc : Loc) (targets : List Expr) (value : Expr) (typeComment : Option String)
  | augAssign (loc : Loc) (target : Expr) (op : BinOp) (value : Expr)
  | annAssign (loc : Loc) (target hint : Expr) (value : Option Expr) (simple : Bool)
  | forLoop (loc : Loc) (isAsync : Bool) (target iter : Expr) (body orelse : List Stmt) (typeComment : Option String)
  | whileLoop (loc : Loc) (test : Expr) (body orelse : List Stmt)
  | cond (loc : Loc) (test : Expr) (body orelse : List Stmt)
  | withBlock (loc : Loc) (isAsync : Bool) (items : List WithItem) (body : List Stmt) (typeComment : Option String)
  | matchOn (loc : Loc) (subject : Expr) (cases : List MatchCase)
  | raise (loc : Loc) (exc cause : Option Expr)
  | tryBlock (loc : Loc) (star : Bool) (body : List Stmt) (handlers : List Handler) (orelse final : List Stmt)
  | assert (loc : Loc) (test : Expr) (msg : Option Expr)
  | importNames (loc : Loc) (names : List Alias)
  | importFrom (loc : Loc) (module : Option String) (names : List Alias) (level : Option Nat)
  | globalNames (loc : Loc) (names : List String)
  | nonlocalNames (loc : Loc) (names : List String)
  | expr (loc : Loc) (value : Expr)
  | pass (loc : Loc)
  | breakLoop (loc : Loc)
  | continueLoop (loc : Loc)

inductive Handler where
  | mk (loc : Loc) (type : Option Expr) (name : Option String) (body : List Stmt)

inductive MatchCase where
  | mk (pattern : Pattern) (guard : Option Expr) (body : List Stmt)

end

instance : Inhabited Stmt := ⟨.pass default⟩

structure Module where
  body : List Stmt
  deriving Inhabited

/-! Names of operators and contexts as the grammar has them. -/

def Context.kind : Context → String
  | .load => "Load" | .store => "Store" | .del => "Del"

def BoolOp.kind : BoolOp → String
  | .and => "And" | .or => "Or"

def BinOp.kind : BinOp → String
  | .add => "Add" | .sub => "Sub" | .mult => "Mult" | .matMult => "MatMult" | .div => "Div"
  | .mod => "Mod" | .pow => "Pow" | .lShift => "LShift" | .rShift => "RShift"
  | .bitOr => "BitOr" | .bitXor => "BitXor" | .bitAnd => "BitAnd" | .floorDiv => "FloorDiv"

def UnaryOp.kind : UnaryOp → String
  | .invert => "Invert" | .not => "Not" | .plus => "UAdd" | .minus => "USub"

def CompareOp.kind : CompareOp → String
  | .eq => "Eq" | .notEq => "NotEq" | .lt => "Lt" | .ltE => "LtE" | .gt => "Gt" | .gtE => "GtE"
  | .same => "Is" | .notSame => "IsNot" | .member => "In" | .notMember => "NotIn"

/-! Removes docstrings: a text that stands first in the body of a module, class or function. -/

def dropDocstring : List Stmt → List Stmt
  | .expr _ (.constant _ (.text _) _) :: rest => rest
  | body => body

mutual

def Stmt.stripDocstrings : Stmt → Stmt
  | .funcDef l a n args body ds r tc => .funcDef l a n args (dropDocstring (stripDocstringsIn body)) ds r tc
  | .classDef l n bs ks body ds => .classDef l n bs ks (dropDocstring (stripDocstringsIn body)) ds
  | .forLoop l a t i b o tc => .forLoop l a t i (stripDocstringsIn b) (stripDocstringsIn o) tc
  | .whileLoop l t b o => .whileLoop l t (stripDocstringsIn b) (stripDocstringsIn o)
  | .cond l t b o => .cond l t (stripDocstringsIn b) (stripDocstringsIn o)
  | .withBlock l a is b tc => .withBlock l a is (stripDocstringsIn b) tc
  | .matchOn l s cs => .matchOn l s (stripDocstringsInCases cs)
  | .tryBlock l st b hs o f =>
    .tryBlock l st (stripDocstringsIn b) (stripDocstringsInHandlers hs) (stripDocstringsIn o) (stripDocstringsIn f)
  | s => s

def stripDocstringsIn : List Stmt → List Stmt
  | [] => []
  | s :: rest => s.stripDocstrings :: stripDocstringsIn rest

def stripDocstringsInHandlers : List Handler → List Handler
  | [] => []
  | .mk l t n b :: rest => .mk l t n (stripDocstringsIn b) :: stripDocstringsInHandlers rest

def stripDocstringsInCases : List MatchCase → List MatchCase
  | [] => []
  | .mk p g b :: rest => .mk p g (stripDocstringsIn b) :: stripDocstringsInCases rest

end

def Module.stripDocstrings (m : Module) : Module := ⟨dropDocstring (stripDocstringsIn m.body)⟩

end SecScan.Syntax
