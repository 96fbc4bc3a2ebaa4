import SecScan.Number
import SecScan.Value.Keyed

/-! Arithmetic and order on dynamic data. Truth values count as whole numbers, whole numbers stay
exact beside doubles, and texts and lists can be joined, repeated and compared. -/
namespace SecScan.Value

def wholeToReal (n : Int) : Try Float :=
  match Decimal.ofInt? n with
  | some x => .ok x
  | none => .error (.tooLarge (some "int too large to convert to float"))

/-- A number as a double, if it is not too large for one. -/
def toReal : Number → Try Float
  | .whole n => wholeToReal n
  | .real x => .ok x

def unsupported (op : String) (a b : Value) : Fault :=
  .wrongKind (some ("unsupported operand type(s) for " ++ op ++ ": '" ++ a.kindName ++ "' and '" ++ b.kindName ++ "'"))

variable (a b : Value)

def unjoinable : Fault :=
  .wrongKind (some ("can only concatenate " ++ a.kindName ++ " (not \"" ++ b.kindName ++ "\") to " ++ a.kindName))

def combine (op : String) (whole : Int → Int → Int) (real : Float → Float → Float) (a b : Value) : Try Value :=
  match Number.ofValue? a, Number.ofValue? b with
  | some (.whole m), some (.whole n) => .ok (.int (whole m n))
  | some x, some y => do return .float (real (← toReal x) (← toReal y))
  | _, _ => .error (unsupported op a b)

def plus : Try Value :=
  match a, b with
  | .text s, .text t => .ok (.text (s ++ t))
  | .list l, .list m => .ok (.list (l ++ m))
  | .tuple l, .tuple m => .ok (.tuple (l ++ m))
  | .text _, _ | .list _, _ | .tuple _, _ => .error (unjoinable a b)
  | _, _ => combine "+" (· + ·) (· + ·) a b

def minus : Value → Value → Try Value := combine "-" (· - ·) (· - ·)

def repeated (l : List α) (n : Int) : List α := (List.replicate n.toNat l).flatten

def isSequence : Value → Bool
  | .text _ | .list _ | .tuple _ | .bytes _ => true
  | _ => false

def unrepeatable (times : Value) : Fault :=
  .wrongKind (some ("can't multiply sequence by non-int of type '" ++ times.kindName ++ "'"))

def times : Try Value :=
  match a, b, Number.ofValue? a, Number.ofValue? b with
  | .text s, _, _, some (.whole n) | _, .text s, some (.whole n), _ => .ok (.text (Text.repeated n.toNat s))
  | .list l, _, _, some (.whole n) | _, .list l, some (.whole n), _ => .ok (.list (repeated l n))
  | .tuple l, _, _, some (.whole n) | _, .tuple l, some (.whole n), _ => .ok (.tuple (repeated l n))
  | _, _, _, _ =>
    if isSequence a then .error (unrepeatable b)
    else if isSequence b then .error (unrepeatable a)
    else combine "*" (· * ·) (· * ·) a b

def dividedBy : Try Value :=
  match Number.ofValue? a, Number.ofValue? b with
  | some (.whole m), some (.whole n) =>
    if n == 0 then .error (.dividedByZero (some "division by zero"))
    else
      let x := Decimal.ofRatio ((m < 0) != (n < 0)) m.natAbs n.natAbs
      if x.isInf then .error (.tooLarge (some "integer division result too large for a float"))
      else .ok (.float x)
  | some x, some y => do
    let d ← toReal y
    if d == 0.0 then throw (.dividedByZero (some "float division by zero"))
    return .float ((← toReal x) / d)
  | _, _ => .error (unsupported "/" a b)

/-! The order of two values is none if they cannot be compared, and within that none if neither comes
first. -/

mutual

def order? : Value → Value → Option (Option Ordering)
  | .text s, .text t => some (some (compare s.toList t.toList))
  | .list l, .list m => orderAll? l m
  | .tuple l, .tuple m => orderAll? l m
  | a, b => match Number.ofValue? a, Number.ofValue? b with
    | some x, some y => some (x.order y)
    | _, _ => none

def orderAll? : List Value → List Value → Option (Option Ordering)
  | [], [] => some (some .eq)
  | [], _ :: _ => some (some .lt)
  | _ :: _, [] => some (some .gt)
  | a :: l, b :: m => if same a b then orderAll? l m else order? a b

end

inductive Relation where
  | less | atMost | more | atLeast

namespace Relation

def symbol : Relation → String
  | .less => "<"
  | .atMost => "<="
  | .more => ">"
  | .atLeast => ">="

def holds : Relation → Ordering → Bool
  | .less, o => o == .lt
  | .atMost, o => o != .gt
  | .more, o => o == .gt
  | .atLeast, o => o != .lt

end Relation

def related (r : Relation) (a b : Value) : Try Bool :=
  match order? a b with
  | some o => .ok (o.any r.holds)
  | none => .error (.wrongKind (some ("'" ++ r.symbol ++ "' not supported between instances of '" ++ a.kindName
      ++ "' and '" ++ b.kindName ++ "'")))

def less : Value → Value → Try Bool := related .less
def atMost : Value → Value → Try Bool := related .atMost
def more : Value → Value → Try Bool := related .more
def atLeast : Value → Value → Try Bool := related .atLeast

/-- The larger of two values, of equal ones the first. -/
def larger : Try Value := do return if ← b.more a then b else a

/-- The smaller of two values, of equal ones the first. -/
def smaller : Try Value := do return if ← b.less a then b else a

def total (l : List Value) : Try Value := l.foldlM plus (.int 0)

def smallest : List Value → Try Value
  | [] => .error .invalid
  | v :: rest => rest.foldlM smaller v

def largest : List Value → Try Value
  | [] => .error .invalid
  | v :: rest => rest.foldlM larger v

def areOrdered : List Value → Bool
  | [] => true
  | v :: rest => rest.all (fun w => (order? v w).isSome) && areOrdered rest

/-- Items in the order of their keys, equal ones as they stand. All keys have to be comparable. -/
def sortOn (key : α → Value) (l : List α) (descending : Bool := false) : Try (List α) :=
  let below (a b : α) := order? (key a) (key b) == some (some .lt)
  if areOrdered (l.map key) then .ok (l.mergeSort fun a b => !(if descending then below a b else below b a))
  else .error .wrongKind

end SecScan.Value
