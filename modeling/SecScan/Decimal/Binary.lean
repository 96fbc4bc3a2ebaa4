/-! Doubles taken apart: a finite double is a sign and `mantissa * 2 ^ exponent`. -/
namespace SecScan.Decimal

inductive Parts where
  | nan
  | infinite (negative : Bool)
  | finite (negative : Bool) (mantissa : Nat) (exponent : Int)

def parts (x : Float) : Parts :=
  let bits := x.toBits.toNat
  let negative := bits / Nat.pow 2 63 == 1
  let biased : Nat := bits / Nat.pow 2 52 % Nat.pow 2 11
  let fraction : Nat := bits % Nat.pow 2 52
  if biased == 2047 then
    if fraction == 0 then .infinite negative else .nan
  else if biased == 0 then .finite negative fraction (-1074)
  else .finite negative (Nat.pow 2 52 + fraction) ((biased : Int) - 1075)

variable (num den : Nat)

/-- The quotient rounded to the nearest integer, a half going to the even neighbour. -/
def roundDiv : Nat :=
  let q := num / den
  let r := num % den
  if 2 * r < den then q
  else if den < 2 * r then q + 1
  else if q % 2 == 0 then q else q + 1

/-- The bits of `mantissa * 2 ^ exponent` without a sign. One bit too many of the mantissa is carried
into the exponent. -/
def bitsOf (mantissa : Nat) (exponent : Int) : Nat := (exponent + 1074).toNat * Nat.pow 2 52 + mantissa

variable (negative : Bool)

def signed (bits : Nat) : Float :=
  Float.ofBits (UInt64.ofNat ((if negative then Nat.pow 2 63 else 0) + bits))

/-- A quotient in units of `2 ^ e`. -/
def inUnits (e : Int) : Nat × Nat := (num * Nat.pow 2 (-e).toNat, den * Nat.pow 2 e.toNat)

/-- The unit that leaves 53 bits of a positive quotient to round to, or the least that there is. -/
def unitOf : Int :=
  let e : Int := (Nat.log2 num : Int) - Nat.log2 den - 53
  let (n, d) := inUnits num den e
  max (if n / d < Nat.pow 2 53 then e else e + 1) (-1074)

/-- The bits of the double nearest to a quotient; too large ones are infinite. -/
def nearest : Nat :=
  let e := unitOf num den
  let (n, d) := inUnits num den e
  if num == 0 then 0
  else if den == 0 || 971 < e then bitsOf (Nat.pow 2 53) 971
  else bitsOf (roundDiv n d) e

def ofRatio (num den : Nat) : Float := signed negative (nearest num den)

/-- The bits of the double nearest to `mantissa * 10 ^ exponent`. Exponents far outside the range of doubles
are settled without forming the power. -/
def nearestDigits (mantissa : Nat) (exponent : Int) : Nat :=
  if mantissa == 0 || (Nat.log2 mantissa : Int) + 3 * exponent < -1100 then 0
  else if 400 < exponent then nearest 1 0
  else nearest (mantissa * Nat.pow 10 exponent.toNat) (Nat.pow 10 (-exponent).toNat)

def ofDigits (mantissa : Nat) (exponent : Int) : Float :=
  signed negative (nearestDigits mantissa exponent)

/-! Doubles beside whole numbers: the double nearest to one, and exact comparison. -/

def ofInt? (n : Int) : Option Float :=
  let x := ofRatio (n < 0) n.natAbs 1
  if x.isInf then none else some x

/-- A whole number against a double; none if the double is no number. -/
def compareInt (n : Int) (x : Float) : Option Ordering :=
  match parts x with
  | .nan => none
  | .infinite negative => some (if negative then .gt else .lt)
  | .finite negative m e =>
    let m : Int := if negative then -(m : Int) else m
    some (if 0 ≤ e then compare n (m * Nat.pow 2 e.toNat) else compare (n * Nat.pow 2 e.natAbs) m)

def truncate (x : Float) : Int :=
  match parts x with
  | .finite negative m e =>
    let n : Int := if 0 ≤ e then m * Nat.pow 2 e.toNat else m / Nat.pow 2 e.natAbs
    if negative then -n else n
  | _ => 0

end SecScan.Decimal
