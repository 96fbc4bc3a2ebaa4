/-! Dynamic data: what documents, settings and literals of the analysed programs hold. A map keeps
the order in which its keys were first entered. -/
namespace SecScan

inductive Value where
  | null
  | bool (b : Bool)
  | int (n : Int)
  | float (x : Float)
  | text (s : String)
  | bytes (b : List UInt8)
  | complex (re im : Float)
  | ellipsis
  | list (items : List Value)
  | tuple (items : List Value)
  | set (items : List Value)
  | map (entries : List (Value × Value))
  deriving Inhabited

abbrev Fields := List (String × Value)

abbrev Entries := List (Value × Value)

namespace Value

def obj (fields : Fields) : Value := .map (fields.map fun (k, v) => (.text k, v))

def nat (n : Nat) : Value := .int n

def texts (l : List String) : Value := .list (l.map .text)

def ofOption (f : α → Value) : Option α → Value
  | none => .null
  | some a => f a

def optText : Option String → Value := ofOption .text

variable (v : Value) (k : String)

def isKey : Value → Bool
  | .text s => s == k
  | _ => false

def lookup (entries : Entries) (k : String) : Option Value :=
  (entries.find? fun e => isKey k e.1).map (·.2)

def get? : Option Value :=
  match v with
  | .map entries => lookup entries k
  | _ => none

def getD (d : Value) : Value := (v.get? k).getD d

def has : Bool := (v.get? k).isSome

def text? : Value → Option String
  | .text s => some s
  | _ => none

def int? : Value → Option Int
  | .int n => some n
  | _ => none

def nat? : Value → Option Nat
  | .int n => if 0 ≤ n then some n.toNat else none
  | _ => none

def list? : Value → Option (List Value)
  | .list l => some l
  | _ => none

def items : Value → List Value
  | .list l => l
  | _ => []

def entries : Value → Entries
  | .map l => l
  | _ => []

def fields : Fields := v.entries.filterMap fun (k, x) => k.text?.map (·, x)

def isMap : Value → Bool
  | .map _ => true
  | _ => false

def isList : Value → Bool
  | .list _ => true
  | _ => false

def isText : Value → Bool
  | .text _ => true
  | _ => false

def isNull : Value → Bool
  | .null => true
  | _ => false

/-- Empty containers, zero, the empty text and null count as absent. -/
def truthy : Value → Bool
  | .null => false
  | .bool b => b
  | .int n => n != 0
  | .float x => x != 0.0
  | .text s => s != ""
  | .bytes b => !b.isEmpty
  | .complex re im => re != 0.0 || im != 0.0
  | .ellipsis => true
  | .list l => !l.isEmpty
  | .tuple l => !l.isEmpty
  | .set l => !l.isEmpty
  | .map l => !l.isEmpty

/-- Number of whole or broken kind, a truth value counting as 0 or 1. -/
def number? : Value → Option Float
  | .bool b => some (if b then 1.0 else 0.0)
  | .int n => some (Float.ofInt n)
  | .float x => some x
  | _ => none

end Value

/-- Enters a value under a text key: an existing key keeps its place. -/
def putField (k : String) (v : α) : List (String × α) → List (String × α)
  | [] => [(k, v)]
  | (k', v') :: rest => if k' == k then (k', v) :: rest else (k', v') :: putField k v rest

/-- What stands under each key, in the order of first sight and nothing twice. -/
def grouped [BEq κ] [BEq α] (l : List (κ × α)) : List (κ × List α) :=
  (l.map (·.1)).eraseDups.map fun k => (k, ((l.filter (·.1 == k)).map (·.2)).eraseDups)

namespace Value

variable (v : Value) (k : String)

def putText (v : Value) : Entries → Entries
  | [] => [(.text k, v)]
  | (k', v') :: rest =>
    if isKey k k' then (k', v) :: rest else (k', v') :: putText v rest

def put (x : Value) : Value :=
  match v with
  | .map l => .map (putText k x l)
  | other => other

def erase : Value :=
  match v with
  | .map l => .map (l.filter fun e => !isKey k e.1)
  | other => other

end Value

end SecScan
