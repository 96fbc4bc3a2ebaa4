import SecScan.Decimal.Binary
import SecScan.Value.Access

/-! Equality of dynamic data, and tables whose keys are values. Numbers are equal across their kinds, and
one key then; maps are equal whatever their order. -/
namespace SecScan.Value

/-- Whether a value is a whole number, whatever its kind. -/
def sameWhole (n : Int) : Value → Bool
  | .float y => Decimal.compareInt n y == some .eq
  | .int m => n == m
  | .bool b => n == if b then 1 else 0
  | _ => false

mutual

def same : Value → Value → Bool
  | .null, .null => true
  | .ellipsis, .ellipsis => true
  | .text a, .text b => a == b
  | .bytes a, .bytes b => a == b
  | .complex a b, .complex c d => a == c && b == d
  | .list a, .list b => sameAll a b
  | .tuple a, .tuple b => sameAll a b
  | .set a, .set b => a.length == b.length && inAll a b
  | .map a, .map b => a.length == b.length && sameEntries a b
  | .int a, .int b => a == b
  | .bool a, .bool b => a == b
  | .bool a, v => sameWhole (if a then 1 else 0) v
  | .int a, v => sameWhole a v
  | .float x, .float y => x == y
  | .float x, .int n => sameWhole n (.float x)
  | .float x, .bool b => sameWhole (if b then 1 else 0) (.float x)
  | _, _ => false

def sameAll : List Value → List Value → Bool
  | [], [] => true
  | a :: as, b :: bs => same a b && sameAll as bs
  | _, _ => false

def inAll : List Value → List Value → Bool
  | [], _ => true
  | a :: as, bs => bs.any (same a) && inAll as bs

def sameEntries : Entries → Entries → Bool
  | [], _ => true
  | (k, v) :: es, fs => fs.any (fun f => same k f.1 && same v f.2) && sameEntries es fs

end

def isNaN : Value → Bool
  | .float x => x.isNaN
  | _ => false

/-- Whether two values are one key. What is no number differs from itself, and is one key still. -/
def sameKey (a b : Value) : Bool := a.same b || (a.isNaN && b.isNaN)

/-! Tables -/

mutual

/-- Whether a value can be a key: what can still change cannot. -/
def isFixed : Value → Bool
  | .list _ | .set _ | .map _ => false
  | .tuple l => areFixed l
  | _ => true

def areFixed : List Value → Bool
  | [] => true
  | v :: rest => isFixed v && areFixed rest

end

def requireFixed (v : Value) : Try Unit :=
  if v.isFixed then .ok () else .error (.wrongKind (some ("unhashable type: '" ++ v.kindName ++ "'")))

def under? (k : Value) : List (Value × α) → Option α
  | [] => none
  | (k', a) :: rest => if same k' k then some a else under? k rest

/-- Enters something under a key: an existing key keeps its place. -/
def enter (k : Value) (a : α) : List (Value × α) → List (Value × α)
  | [] => [(k, a)]
  | (k', b) :: rest => if same k' k then (k', a) :: rest else (k', b) :: enter k a rest

def pairOf (place : Nat) (v : Value) : Try (Value × Value) :=
  match v.each with
  | .ok [k, x] => .ok (k, x)
  | .ok l => .error (.invalid (some ("dictionary update sequence element #" ++ toString place ++ " has length "
      ++ toString l.length ++ "; 2 is required")))
  | .error _ => .error (.wrongKind (some ("cannot convert dictionary update sequence element #" ++ toString place
      ++ " to a sequence")))

/-- A table, or one made of pairs, of which a later one takes the place of an earlier one. -/
def asTable (v : Value) : Try Entries :=
  match v with
  | .map es => .ok es
  | v => do
    (← v.each).zipIdx.foldlM (fun es (x, n) => do
      let (k, y) ← pairOf n x
      k.requireFixed
      return enter k y es) []

def remove (k : Value) (l : List (Value × α)) : List (Value × α) := l.filter fun e => !same e.1 k

end SecScan.Value
