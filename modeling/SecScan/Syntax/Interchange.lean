import SecScan.Syntax.Tree

/-! Trees arrive as nested arrays: the kind of a node, its place, then its fields. Values that JSON
cannot hold are wrapped in a map with one marked key. -/
namespace SecScan

namespace Value

/-- A number in its shortest text, or one of the words for the numbers without digits. -/
def floatOfText (s : String) : Option Float :=
  match s with
  | "inf" => some (1.0 / 0.0)
  | "-inf" => some (-1.0 / 0.0)
  | "nan" => some (0.0 / 0.0)
  | _ =>
    match Json.readNumber s.toList with
    | some (.int n, []) => some (Float.ofInt n)
    | some (.float x, []) => some x
    | _ => none

def imaginaryOfText (s : String) : Option Value :=
  match s.toList.reverse with
  | 'j' :: rest => (floatOfText (String.ofList rest.reverse)).map (.complex 0.0 ·)
  | _ => none

def bytesOfHex : List Char → Option (List UInt8)
  | [] => some []
  | a :: b :: rest => do
    let a ← Json.hexDigit? a
    let b ← Json.hexDigit? b
    return UInt8.ofNat (a * 16 + b) :: (← bytesOfHex rest)
  | _ => none

def intOfText (s : String) : Option Int :=
  match Json.readNumber s.toList with
  | some (.int n, []) => some n
  | _ => none

/-- The value behind a marked key, if the map is such a wrapper. -/
def unwrap : Value → Option Value
  | .map [(.text "$int", .text s)] => (intOfText s).map .int
  | .map [(.text "$float", .text s)] => (floatOfText s).map .float
  | .map [(.text "$bytes", .text s)] => (bytesOfHex s.toList).map .bytes
  | .map [(.text "$complex", .text s)] => imaginaryOfText s
  | .map [(.text "$ellipsis", _)] => some .ellipsis
  | _ => none

mutual

def depth : Value → Nat
  | .list l => depthAll l + 1
  | .tuple l => depthAll l + 1
  | .set l => depthAll l + 1
  | .map l => depthEntries l + 1
  | _ => 1

def depthAll : List Value → Nat
  | [] => 0
  | v :: vs => max v.depth (depthAll vs)

def depthEntries : Entries → Nat
  | [] => 0
  | (k, v) :: es => max k.depth (max v.depth (depthEntries es))

end

def plainTo : Nat → Value → Value
  | 0, v => v
  | d + 1, v =>
    match v.unwrap with
    | some x => x
    | none =>
      match v with
      | .list l => .list (l.map (plainTo d))
      | .map [(.text "$map", .list ps)] =>
        .map (ps.filterMap fun
          | .list [k, x] => some (plainTo d k, plainTo d x)
          | _ => none)
      | .map es => .map (es.map fun (k, x) => (k, plainTo d x))
      | other => other

/-- Replaces all wrappers inside a value by what they stand for. -/
def plain (v : Value) : Value := plainTo v.depth v

def hexOfBytes (b : List UInt8) : String :=
  String.ofList (b.flatMap fun x => [Json.hexChar (x.toNat / 16), Json.hexChar (x.toNat % 16)])

def marker (name text : String) : Value := .obj [(name, .text text)]

/-- A map as an object: null is a key like a text, with any other key the entries are listed. -/
def markedMap (es : Entries) : Value :=
  if es.all fun e => e.1.isText || e.1.isNull then
    .map (es.map fun (k, v) => (if k.isNull then .text "null" else k, v))
  else .obj [("$map", .list (es.map fun (k, v) => .list [k, v]))]

/-- Numbers in order before all else by its source form. -/
def leItem (a b : Value) : Bool :=
  match a.number?, b.number? with
  | some x, some y => x <= y
  | some _, none => true
  | none, some _ => false
  | none, none => match a, b with
    | .text s, .text t => s ≤ t
    | _, _ => a.literal ≤ b.literal

def insertMark (x : Value × Value) : Entries → Entries
  | [] => [x]
  | y :: r => if leItem x.1 y.1 then x :: y :: r else y :: insertMark x r

variable (number : Float → String)

mutual

/-- Wraps what JSON cannot hold; numbers with a fraction get the given text. A set has the order of
its items. -/
def marked : Value → Value
  | .int n => if n.natAbs < Nat.pow 2 53 then .int n else marker "$int" (toString n)
  | .float x => marker "$float" (number x)
  | .bytes b => marker "$bytes" (hexOfBytes b)
  | .complex re im => marker "$complex" (complexLiteral re im)
  | .ellipsis => .obj [("$ellipsis", .bool true)]
  | .list l | .tuple l => .list (markedAll l)
  | .set l => .list ((sortedMarks l).map (·.2))
  | .map l => markedMap (markedEntries l)
  | v => v

def markedAll : List Value → List Value
  | [] => []
  | v :: vs => marked v :: markedAll vs

def markedEntries : Entries → Entries
  | [] => []
  | (k, v) :: es => (marked k, marked v) :: markedEntries es

def sortedMarks : List Value → Entries
  | [] => []
  | v :: vs => insertMark (v, marked v) (sortedMarks vs)

end

end Value

namespace Syntax.Interchange

def fail : Option α := none

def place : Value → Option Loc
  | .list [.int l, .int c, .int el, .int ec] => some ⟨l.toNat, c.toNat, el.toNat, ec.toNat⟩
  | _ => fail

def word (words : List (String × α)) : Value → Option α
  | .text s => words.lookup s
  | _ => fail

def context : Value → Option Context := word [("Load", .load), ("Store", .store), ("Del", .del)]

def boolOp : Value → Option BoolOp := word [("And", .and), ("Or", .or)]

def binOp : Value → Option BinOp := word
  [("Add", .add), ("Sub", .sub), ("Mult", .mult), ("MatMult", .matMult), ("Div", .div), ("Mod", .mod), ("Pow", .pow),
   ("LShift", .lShift), ("RShift", .rShift), ("BitOr", .bitOr), ("BitXor", .bitXor), ("BitAnd", .bitAnd),
   ("FloorDiv", .floorDiv)]

def unaryOp : Value → Option UnaryOp := word [("Invert", .invert), ("Not", .not), ("UAdd", .plus), ("USub", .minus)]

def compareOp : Value → Option CompareOp := word
  [("Eq", .eq), ("NotEq", .notEq), ("Lt", .lt), ("LtE", .ltE), ("Gt", .gt), ("GtE", .gtE), ("Is", .same),
   ("IsNot", .notSame), ("In", .member), ("NotIn", .notMember)]

def text : Value → Option String
  | .text s => return s
  | _ => fail

def opt (f : Value → Option α) : Value → Option (Option α)
  | .null => return none
  | v => some <$> f v

def all (f : Value → Option α) : Value → Option (List α)
  | .list l => l.mapM f
  | _ => fail

def flag : Value → Option Bool
  | .int n => return n != 0
  | .bool b => return b
  | _ => fail

def constant (v : Value) : Value := (v.unwrap).getD v

mutual

def expr : Nat → Value → Option Expr
  | 0, _ => fail
  | d + 1, .list (.text kind :: pos :: fields) => do
    let l ← place pos
    let one := expr d
    let many := all one
    let may := opt one
    let loops := all (comprehension d)
    match kind, fields with
    | "BoolOp", [op, vs] => return .boolOp l (← boolOp op) (← many vs)
    | "NamedExpr", [t, v] => return .named l (← one t) (← one v)
    | "BinOp", [a, op, b] => return .binOp l (← one a) (← binOp op) (← one b)
    | "UnaryOp", [op, e] => return .unaryOp l (← unaryOp op) (← one e)
    | "Lambda", [a, b] => return .lambda l (← arguments d a) (← one b)
    | "IfExp", [t, b, o] => return .ifExp l (← one t) (← one b) (← one o)
    | "Dict", [ks, vs] => return .dict l (← all may ks) (← many vs)
    | "Set", [es] => return .set l (← many es)
    | "ListComp", [e, gs] => return .listComp l (← one e) (← loops gs)
    | "SetComp", [e, gs] => return .setComp l (← one e) (← loops gs)
    | "DictComp", [k, v, gs] => return .dictComp l (← one k) (← one v) (← loops gs)
    | "GeneratorExp", [e, gs] => return .generator l (← one e) (← loops gs)
    | "Await", [e] => return .await l (← one e)
    | "Yield", [e] => return .yield l (← may e)
    | "YieldFrom", [e] => return .yieldFrom l (← one e)
    | "Compare", [a, ops, cs] => return .compare l (← one a) (← all compareOp ops) (← many cs)
    | "Call", [f, as, ks] => return .call l (← one f) (← many as) (← all (keyword d) ks)
    | "FormattedValue", [v, .int c, s] => return .formatted l (← one v) c (← may s)
    | "JoinedStr", [vs] => return .joined l (← many vs)
    | "Constant", [v, k] => return .constant l (constant v) (← opt text k)
    | "Attribute", [v, .text a, c] => return .attribute l (← one v) a (← context c)
    | "Subscript", [v, s, c] => return .subscript l (← one v) (← one s) (← context c)
    | "Starred", [v, c] => return .starred l (← one v) (← context c)
    | "Name", [.text n, c] => return .name l n (← context c)
    | "List", [es, c] => return .list l (← many es) (← context c)
    | "Tuple", [es, c] => return .tuple l (← many es) (← context c)
    | "Slice", [a, b, c] => return .slice l (← may a) (← may b) (← may c)
    | _, _ => fail
  | _ + 1, _ => fail

def arguments : Nat → Value → Option Arguments
  | d + 1, .list [.text "arguments", _, po, as, va, ko, kds, kw, ds] =>
    return .mk (← all (arg d) po) (← all (arg d) as) (← opt (arg d) va) (← all (arg d) ko)
      (← all (opt (expr d)) kds) (← opt (arg d) kw) (← all (expr d) ds)
  | _, _ => fail

def arg : Nat → Value → Option Arg
  | d + 1, .list [.text "arg", pos, .text n, ann, tc] => return .mk (← place pos) n (← opt (expr d) ann) (← opt text tc)
  | _, _ => fail

def keyword : Nat → Value → Option Keyword
  | d + 1, .list [.text "keyword", pos, n, v] => return .mk (← place pos) (← opt text n) (← expr d v)
  | _, _ => fail

def comprehension : Nat → Value → Option Comprehension
  | d + 1, .list [.text "comprehension", _, t, i, ifs, a] =>
    return .mk (← expr d t) (← expr d i) (← all (expr d) ifs) (← flag a)
  | _, _ => fail

end

def pattern : Nat → Value → Option Pattern
  | 0, _ => fail
  | d + 1, .list (.text kind :: pos :: fields) => do
    let l ← place pos
    let many := all (pattern d)
    match kind, fields with
    | "MatchValue", [v] => return .value l (← expr d v)
    | "MatchSingleton", [v] => return .singleton l (constant v)
    | "MatchSequence", [ps] => return .sequence l (← many ps)
    | "MatchMapping", [ks, ps, r] => return .mapping l (← all (expr d) ks) (← many ps) (← opt text r)
    | "MatchClass", [c, ps, as, aps] => return .cls l (← expr d c) (← many ps) (← all text as) (← many aps)
    | "MatchStar", [n] => return .star l (← opt text n)
    | "MatchAs", [p, n] => return .capture l (← opt (pattern d) p) (← opt text n)
    | "MatchOr", [ps] => return .anyOf l (← many ps)
    | _, _ => fail
  | _ + 1, _ => fail

def withItem (d : Nat) : Value → Option WithItem
  | .list [.text "withitem", _, c, v] => return ⟨← expr d c, ← opt (expr d) v⟩
  | _ => fail

def importedName : Value → Option Alias
  | .list [.text "alias", pos, .text n, a] => return ⟨← place pos, n, ← opt text a⟩
  | _ => fail

def level : Value → Option Nat
  | .int n => return n.toNat
  | _ => fail

mutual

def stmt : Nat → Value → Option Stmt
  | 0, _ => fail
  | d + 1, .list (.text kind :: pos :: fields) => do
    let l ← place pos
    let one := expr d
    let many := all one
    let may := opt one
    let body := all (stmt d)
    match kind, fields with
    | "FunctionDef", [.text n, as, b, ds, r, tc]
    | "AsyncFunctionDef", [.text n, as, b, ds, r, tc] =>
      return .funcDef l (kind == "AsyncFunctionDef") n (← arguments d as) (← body b) (← many ds) (← may r)
        (← opt text tc)
    | "ClassDef", [.text n, bs, ks, b, ds] =>
      return .classDef l n (← many bs) (← all (keyword d) ks) (← body b) (← many ds)
    | "Return", [v] => return .ret l (← may v)
    | "Delete", [ts] => return .delete l (← many ts)
    | "Assign", [ts, v, tc] => return .assign l (← many ts) (← one v) (← opt text tc)
    | "AugAssign", [t, op, v] => return .augAssign l (← one t) (← binOp op) (← one v)
    | "AnnAssign", [t, a, v, s] => return .annAssign l (← one t) (← one a) (← may v) (← flag s)
    | "For", [t, i, b, o, tc]
    | "AsyncFor", [t, i, b, o, tc] =>
      return .forLoop l (kind == "AsyncFor") (← one t) (← one i) (← body b) (← body o) (← opt text tc)
    | "While", [t, b, o] => return .whileLoop l (← one t) (← body b) (← body o)
    | "If", [t, b, o] => return .cond l (← one t) (← body b) (← body o)
    | "With", [is, b, tc]
    | "AsyncWith", [is, b, tc] =>
      return .withBlock l (kind == "AsyncWith") (← all (withItem d) is) (← body b) (← opt text tc)
    | "Match", [s, cs] => return .matchOn l (← one s) (← all (matchCase d) cs)
    | "Raise", [e, c] => return .raise l (← may e) (← may c)
    | "Try", [b, hs, o, f]
    | "TryStar", [b, hs, o, f] =>
      return .tryBlock l (kind == "TryStar") (← body b) (← all (handler d) hs) (← body o) (← body f)
    | "Assert", [t, m] => return .assert l (← one t) (← may m)
    | "Import", [ns] => return .importNames l (← all importedName ns)
    | "ImportFrom", [m, ns, lv] => return .importFrom l (← opt text m) (← all importedName ns) (← opt level lv)
    | "Global", [ns] => return .globalNames l (← all text ns)
    | "Nonlocal", [ns] => return .nonlocalNames l (← all text ns)
    | "Expr", [v] => return .expr l (← one v)
    | "Pass", [] => return .pass l
    | "Break", [] => return .breakLoop l
    | "Continue", [] => return .continueLoop l
    | _, _ => fail
  | _ + 1, _ => fail

def handler : Nat → Value → Option Handler
  | d + 1, .list [.text "ExceptHandler", pos, t, n, b] =>
    return .mk (← place pos) (← opt (expr d) t) (← opt text n) (← all (stmt d) b)
  | _, _ => fail

def matchCase : Nat → Value → Option MatchCase
  | d + 1, .list [.text "match_case", _, p, g, b] => return .mk (← pattern d p) (← opt (expr d) g) (← all (stmt d) b)
  | _, _ => fail

end

def module? (v : Value) : Option Module :=
  match v with
  | .list (.text "Module" :: _ :: body :: _) => (all (stmt v.depth) body).map fun b => ⟨b⟩
  | _ => none

end Syntax.Interchange

end SecScan
