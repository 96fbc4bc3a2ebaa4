import SecScan.Decimal.Shortest
import SecScan.Value

/-! Numbers that stay whole as long as they can. -/
namespace SecScan

inductive Number where
  | whole (n : Int)
  | real (x : Float)
  deriving Inhabited

namespace Number

def toFloat : Number → Float
  | .whole n => Float.ofInt n
  | .real x => x

def value : Number → Value
  | .whole n => .int n
  | .real x => .float x

def ofValue? : Value → Option Number
  | .int n => some (.whole n)
  | .float x => some (.real x)
  | .bool b => some (.whole (if b then 1 else 0))
  | _ => none

def add : Number → Number → Number
  | .whole a, .whole b => .whole (a + b)
  | a, b => .real (a.toFloat + b.toFloat)

def sub : Number → Number → Number
  | .whole a, .whole b => .whole (a - b)
  | a, b => .real (a.toFloat - b.toFloat)

def order : Number → Number → Option Ordering
  | .whole a, .whole b => some (compare a b)
  | .whole a, .real y => Decimal.compareInt a y
  | .real x, .whole b => (Decimal.compareInt b x).map Ordering.swap
  | .real x, .real y => if x < y then some .lt else if y < x then some .gt else if x == y then some .eq else none

def lt (a b : Number) : Bool := a.order b == some .lt

def le (a b : Number) : Bool := (a.order b).any (· != .gt)

def truncate : Number → Int
  | .whole n => n
  | .real x => Decimal.truncate x

instance : Sub Number := ⟨sub⟩
instance : Zero Number := ⟨.real 0.0⟩
instance : LE Number := ⟨fun a b => a.le b = true⟩
instance : LT Number := ⟨fun a b => a.lt b = true⟩
instance (a b : Number) : Decidable (a ≤ b) := inferInstanceAs (Decidable (a.le b = true))
instance (a b : Number) : Decidable (a < b) := inferInstanceAs (Decidable (a.lt b = true))

end Number

end SecScan
