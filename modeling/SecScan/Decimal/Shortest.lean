import SecScan.Decimal.Binary

/-! Decimals with a fixed number of places, rounded from the exact binary value. -/
namespace SecScan.Decimal

def padLeft (width : Nat) (c : Char) (s : String) : String := String.ofList (List.replicate (width - s.length) c) ++ s

/-- `mantissa * 2 ^ exponent * 10 ^ places` as an integer, a half going to the even neighbour. -/
def scaled (mantissa : Nat) (exponent : Int) (places : Nat) : Nat :=
  let n := mantissa * Nat.pow 10 places
  if 0 ≤ exponent then n * Nat.pow 2 exponent.toNat else roundDiv n (Nat.pow 2 exponent.natAbs)

/-- Digits of `n` with a point before the last `places` of them. -/
def withPoint (n places : Nat) : String :=
  if places == 0 then toString n
  else toString (n / Nat.pow 10 places) ++ "." ++ padLeft places '0' (toString (n % Nat.pow 10 places))

def fixed (places : Nat) (x : Float) : String :=
  match parts x with
  | .nan => "nan"
  | .infinite negative => if negative then "-inf" else "inf"
  | .finite negative m e => (if negative then "-" else "") ++ withPoint (scaled m e places) places

def roundPlaces (x : Float) (places : Nat) : Float :=
  match parts x with
  | .finite negative m e => ofDigits negative (scaled m e places) (-(places : Int))
  | _ => x

/-! The fewest digits that read back as the same double, of those the nearest. -/

/-- A positive decimal `digits * 10 ^ exponent`. -/
structure Digits where
  digits : Nat
  exponent : Int

variable (m : Nat)

/-- A positive `m * 2 ^ q` as a quotient in units of `10 ^ g`. -/
def onGrid (q g : Int) : Nat × Nat :=
  (m * Nat.pow 2 q.toNat * Nat.pow 10 (-g).toNat, Nat.pow 2 (-q).toNat * Nat.pow 10 g.toNat)

/-- Without the zeros at the end, or so many of them. -/
def trimZeros : Nat → Nat → Int → Digits
  | 0, d, e => ⟨d, e⟩
  | fuel + 1, d, e =>
    if d != 0 && d % 10 == 0 then trimZeros fuel (d / 10) (e + 1) else ⟨d, e⟩

/-- The first power of ten from the `g`-th on downwards that the value reaches. -/
def descend (q : Int) : Nat → Int → Int
  | 0, g => g
  | fuel + 1, g =>
    let (n, d) := onGrid m q g
    if d ≤ n then g else descend q fuel (g - 1)

/-- Position of the leading decimal digit of `m * 2 ^ q`; the number of bits tells it up to one. -/
def leading (q : Int) : Int := descend m q 1000 (((Nat.log2 m : Int) + q) * 30103 / 100000 + 1)

/-- The value's neighbours on a decimal grid, the nearer one first. -/
def neighbours (q g : Int) : List Digits :=
  let (n, d) := onGrid m q g
  [roundDiv n d, 2 * (n / d) + 1 - roundDiv n d].map (trimZeros 20 · g)

/-- All the digits of `m * 2 ^ q`. -/
def exactDigits (q : Int) : Digits := ⟨m * Nat.pow 2 q.toNat * Nat.pow 5 (-q).toNat, min q 0⟩

/-- The neighbour on the first decimal grid that has one which reads back. -/
def shortestDigits (q : Int) : Digits :=
  let top := leading m q
  let readsBack (d : Digits) := nearestDigits d.digits d.exponent == bitsOf m q
  ((List.range 18).findSome? fun (n : Nat) => (neighbours m q (top - n)).find? readsBack).getD (exactDigits m q)

/-- How a number is laid out: plain digits while the leading digit stands between the two bounds, an
exponent of at least two figures otherwise. -/
structure Layout where
  lowest : Int := -4
  highest : Int := 16
  point : Bool := true

def Layout.render (l : Layout) (d : Digits) : String :=
  let ds := toString d.digits
  let n := ds.length
  let lead : Int := d.exponent + n - 1
  if l.lowest ≤ lead && lead < l.highest then
    if 0 ≤ d.exponent then
      ds ++ String.ofList (List.replicate d.exponent.toNat '0') ++ (if l.point then ".0" else "")
    else if 0 ≤ lead then
      let cut := lead.toNat + 1
      (ds.take cut).toString ++ "." ++ (ds.drop cut).toString
    else
      "0." ++ String.ofList (List.replicate (lead.natAbs - 1) '0') ++ ds
  else
    let e := toString lead.natAbs
    let e := if e.length < 2 then "0" ++ e else e
    let body := if n == 1 then ds else (ds.take 1).toString ++ "." ++ (ds.drop 1).toString
    body ++ "e" ++ (if lead < 0 then "-" else "+") ++ e

def render (l : Layout) (x : Float) : String :=
  match parts x with
  | .nan => "nan"
  | .infinite negative => if negative then "-inf" else "inf"
  | .finite negative m q =>
    (if negative then "-" else "") ++
      if m == 0 then (if l.point then "0.0" else "0") else l.render (shortestDigits m q)

def shortest (x : Float) : String := render {} x

end SecScan.Decimal

/-! Decimals with a given number of significant digits. -/
namespace SecScan.Decimal

abbrev Rounding := Nat → Nat → Nat

def roundUp : Rounding := fun num den => (2 * num + den) / (2 * den)

def significant (round : Rounding) (n m : Nat) (q : Int) : Digits :=
  let last := leading m q - (n - 1 : Nat)
  let (num, den) := onGrid m q last
  let d := round num den
  if d == Nat.pow 10 n then ⟨d / 10, last + 1⟩ else ⟨d, last⟩

/-- How digits are laid out: with a given number of places, with an exponent, or as the size of the
number asks for. -/
inductive Form where
  | fixed
  | scientific
  | general

def dropZeros (s : String) : String :=
  if s.contains '.' then
    let cs := s.toList.reverse.dropWhile (· == '0')
    String.ofList (if cs.head? == some '.' then cs.drop 1 else cs).reverse
  else s

def exponentText (e : Int) : String := (if e < 0 then "e-" else "e+") ++ padLeft 2 '0' (toString e.natAbs)

def figures (round : Rounding) (n m : Nat) (q : Int) : String × Int :=
  if m == 0 then (String.ofList (List.replicate n '0'), 0)
  else let d := significant round n m q; (toString d.digits, d.exponent + (n - 1 : Nat))

def pointed (keepPoint : Bool) (k : Nat) (ds : String) : String :=
  (ds.take k).toString ++ (if ds.length ≤ k && !keepPoint then "" else ".") ++ (ds.drop k).toString

def plain (places : Nat) (keepPoint : Bool) (m : Nat) (q : Int) : String :=
  withPoint (scaled m q places) places ++ if places == 0 && keepPoint then "." else ""

/-- A double in one of the forms. A point that no digit follows is kept on request, and so are the zeros
that the general form ends with otherwise. -/
def Form.write (f : Form) (precision : Nat) (keepPoint : Bool) (x : Float) (round : Rounding := roundDiv) : String :=
  match parts x with
  | .nan => "nan"
  | .infinite negative => if negative then "-inf" else "inf"
  | .finite negative m q => (if negative then "-" else "") ++ match f with
    | .fixed => plain precision keepPoint m q
    | .scientific =>
      let (ds, e) := figures round (precision + 1) m q
      pointed keepPoint 1 ds ++ exponentText e
    | .general =>
      let n := max 1 precision
      let (ds, e) := figures round n m q
      let short (s : String) := if keepPoint then s else dropZeros s
      if e < -4 || n ≤ e then short (pointed keepPoint 1 ds) ++ exponentText e
      else if e < 0 then short ("0." ++ String.ofList (List.replicate (e.natAbs - 1) '0') ++ ds)
      else short (pointed keepPoint (e.toNat + 1) ds)

end SecScan.Decimal
