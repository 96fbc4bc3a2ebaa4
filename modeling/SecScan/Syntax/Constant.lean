import SecScan.Syntax.Tree

/-! Expressions that are written-out values: they can be evaluated without running anything. -/
namespace SecScan.Syntax

mutual

/-- Whether a value can be an item of a set or a key of a map; a tuple can if its items can. -/
def isHashable : Value → Bool
  | .list _ | .set _ | .map _ => false
  | .tuple l => areHashable l
  | _ => true

def areHashable : List Value → Bool
  | [] => true
  | v :: vs => isHashable v && areHashable vs

end

def enterKey (k v : Value) : Entries → Entries
  | [] => [(k, v)]
  | (k', v') :: rest => if k'.same k then (k', v) :: rest else (k', v') :: enterKey k v rest

def asSet (l : List Value) : Try Value :=
  if areHashable l then
    .ok (.set (l.foldl (fun s v => if s.any (·.same v) then s else s ++ [v]) []))
  else .error .wrongKind

def plainNumber : Expr → Try Value
  | .constant _ v@(.int _) _ | .constant _ v@(.float _) _ | .constant _ v@(.complex ..) _ => .ok v
  | _ => .error (.invalid none)

def negated : Value → Value
  | .int n => .int (-n)
  | .float x => .float (-x)
  | .complex re im => .complex (-re) (-im)
  | v => v

def signed : Expr → Try Value
  | .unaryOp _ .plus e => plainNumber e
  | .unaryOp _ .minus e => (plainNumber e).map negated
  | e => plainNumber e

def composed (minus : Bool) (left right : Value) : Option Value :=
  match left, right with
  | .int _, .complex re im | .float _, .complex re im =>
    (left.number?.filter (·.isFinite || !left.int?.isSome)).map fun x =>
      if minus then .complex (x - re) (0.0 - im) else .complex (x + re) (0.0 + im)
  | _, _ => none

mutual

def constantOf : Expr → Try Value
  | .constant _ v _ => .ok v
  | .tuple _ es _ => do return .tuple (← constantsOf es)
  | .list _ es _ => do return .list (← constantsOf es)
  | .set _ es => do asSet (← constantsOf es)
  | .call _ (.name _ "set" _) [] [] => .ok (.set [])
  | .dict _ ks vs => do
    let ks ← keysOf ks
    let vs ← constantsOf vs
    if areHashable ks then
      return .map ((ks.zip vs).foldl (fun m (k, v) => enterKey k v m) [])
    else throw .wrongKind
  | .binOp l left op right => do
    match op with
    | .add | .sub =>
      let a ← signed left
      let b ← plainNumber right
      match composed (op == .sub) a b with
      | some v => return v
      | none => throw (.invalid none)
    | _ => signed (.binOp l left op right)
  | e => signed e

def constantsOf : List Expr → Try (List Value)
  | [] => .ok []
  | e :: es => do return (← constantOf e) :: (← constantsOf es)

def keysOf : List (Option Expr) → Try (List Value)
  | [] => .ok []
  | some e :: es => do return (← constantOf e) :: (← keysOf es)
  | none :: _ => .error (.invalid none)

end

end SecScan.Syntax
