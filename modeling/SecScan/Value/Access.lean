import SecScan.Fault
import SecScan.Text.Search
import SecScan.Value

/-! Kinds of dynamic data as messages name them, and parts of a document that has to have a certain
shape. -/
namespace SecScan.Value

def kindName : Value → String
  | .null => "NoneType"
  | .bool _ => "bool"
  | .int _ => "int"
  | .float _ => "float"
  | .text _ => "str"
  | .bytes _ => "bytes"
  | .complex _ _ => "complex"
  | .ellipsis => "ellipsis"
  | .list _ => "list"
  | .tuple _ => "tuple"
  | .set _ => "set"
  | .map _ => "dict"

variable (v : Value)

def lacks (name : String) : Fault :=
  .noField (some ("'" ++ v.kindName ++ "' object has no attribute '" ++ name ++ "'"))

/-! Whether a document mentions a word. -/

variable (k : String)

/-- A map mentions its keys, a list its items, a text its parts. -/
def mentions : Value → Try Bool
  | .map es => .ok (es.any fun e => e.1.text? == some k)
  | .list l | .tuple l | .set l => .ok (l.any fun v => v.text? == some k)
  | .text s => .ok (Text.holds s k)
  | v => .error (.wrongKind (some ("argument of type '" ++ v.kindName ++ "' is not iterable")))

def mentioned? : Try (Option Value) := do
  if ← v.mentions k then
    match v.get? k with
    | some x => return some x
    | none => throw .wrongKind
  else return none

/-- What stands under a key of a map, or else a given value. -/
def field (d : Value := .null) : Try Value :=
  match v with
  | .map _ => .ok (v.getD k d)
  | _ => .error (v.lacks "get")

/-- What can be gone through one by one: the items of a list, the keys of a map, the characters of
a text. -/
def each : Value → Try (List Value)
  | .list l | .tuple l | .set l => .ok l
  | .map es => .ok (es.map (·.1))
  | .text s => .ok (s.toList.map fun c => .text c.toString)
  | v => .error (.wrongKind (some ("'" ++ v.kindName ++ "' object is not iterable")))

def eachAt : Try (List Value) := v.field k (.list []) >>= each

def asText (operation : String) : Try String :=
  match v with
  | .text s => .ok s
  | _ => .error (v.lacks operation)

def asSearched : Value → Try String
  | .text s => .ok s
  | v => .error (.wrongKind (some ("expected string or bytes-like object, got '" ++ v.kindName ++ "'")))

/-- The number of items of a container, or of characters of a text. -/
def size : Value → Try Nat
  | .list l | .tuple l | .set l => .ok l.length
  | .map es => .ok es.length
  | .text s => .ok s.length
  | .bytes b => .ok b.length
  | v => .error (.wrongKind (some ("object of type '" ++ v.kindName ++ "' has no len()")))

/-- Makes sure that a record is given as a map, if at all, and no fields that it does not have. -/
def onlyFields (known : List String) (v : Value) : Try Unit :=
  match v with
  | .null => .ok ()
  | .map _ => if v.fields.all fun f => known.contains f.1 then .ok () else .error .wrongKind
  | _ => .error .wrongKind

def orElse (v w : Value) : Value := if v.truthy then v else w

/-! Beginnings of lists and texts. -/

/-- A place to cut at: a whole number counted from the end if it is negative, or null for the end. -/
def cutPlace : Value → Try (Option Int)
  | .null => .ok none
  | .int n => .ok (some n)
  | .bool b => .ok (some (if b then 1 else 0))
  | _ => .error (.wrongKind (some "slice indices must be integers or None or have an __index__ method"))

/-- The item at a place, which is counted from the end if it is negative. -/
def itemOf (l : List α) (place : Value) : Try α := do
  let some n ← (match place with
    | .null => .ok none
    | v => v.cutPlace) | throw .wrongKind
  let n := if n < 0 then n + l.length else n
  match if n < 0 then none else l[n.toNat]? with
  | some a => return a
  | none => throw .outOfRange

def takeTo (place : Option Int) (l : List α) : List α :=
  match place with
  | none => l
  | some n => if n < 0 then l.take (l.length - n.natAbs) else l.take n.toNat

def upTo (v place : Value) : Try Value :=
  match v with
  | .list l => do return .list (takeTo (← place.cutPlace) l)
  | .tuple l => do return .tuple (takeTo (← place.cutPlace) l)
  | .text s => do return .text (String.ofList (takeTo (← place.cutPlace) s.toList))
  | .map _ => .error (.wrongKind (some "unhashable type: 'slice'"))
  | v => .error (.wrongKind (some ("'" ++ v.kindName ++ "' object is not subscriptable")))

end SecScan.Value
