import SecScan.Number

/-! Fields of a document by the kind they are expected to have; what is absent or of another kind
has the given value instead. -/
namespace SecScan.Value

variable (v : Value) (k : String)

def str (d : String := "") : String := ((v.get? k).bind (·.text?)).getD d

def flag (d : Bool := false) : Bool := ((v.get? k).map (·.truthy)).getD d

def whole (d : Int) : Int := ((v.get? k).bind (·.int?)).getD d

def sub : Value := v.getD k .null

def listAt : List Value := (v.sub k).items

def strs : List String := v.items.filterMap (·.text?)

def textsAt : List String := (v.sub k).strs

def textFields : List (String × String) := v.fields.filterMap fun (k, x) => x.text?.map (k, ·)

def rows (l : List (List Value)) : Value := .list (l.map .list)

def rowKey : List Value → List (Nat × String)
  | [] => []
  | .int n :: r => (n.toNat, "") :: rowKey r
  | .text s :: r => (0, s) :: rowKey r
  | _ :: r => rowKey r

def leRow : List (Nat × String) → List (Nat × String) → Bool
  | [], _ => true
  | _, [] => false
  | (n, s) :: r, (m, t) :: q =>
    if n != m then n < m else if s != t then s < t else leRow r q

def sortedRows (l : List (List Value)) : Value := rows (l.mergeSort fun a b => leRow (rowKey a) (rowKey b))

def sortedNats (l : List Nat) : Value := .list ((l.mergeSort (· ≤ ·)).map .nat)

def sortedTexts (l : List String) : Value := .texts (l.mergeSort (· ≤ ·))

end SecScan.Value
