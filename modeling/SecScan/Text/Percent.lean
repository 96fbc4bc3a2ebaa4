import SecScan.Value.Arithmetic
import SecScan.Value.Literal

/-! Texts with places marked by a percent sign, to be filled in. -/
namespace SecScan.Text

structure Place where
  flags : List Char := []
  width : Nat := 0
  precision : Option Nat := none
  kind : Char

/-- What fills the places: values in order, and what places that name a key look it up in. -/
structure Filling where
  values : List Value
  named : Option Value := none

namespace Filling

def ordered (values : List Value) : Filling := { values }

/-- A single value; in a map, and in a list, keys can be looked up. -/
def single (v : Value) : Filling := { values := [v], named := if v.isMap || v.isList then some v else none }

def next (f : Filling) : Try (Value × Filling) :=
  match f.values with
  | v :: rest => .ok (v, { f with values := rest })
  | [] => .error .wrongKind

/-- The value under a key comes next, and nothing behind it. -/
def find (f : Filling) (key : String) : Try Filling :=
  match f.named with
  | some (.map es) => match Value.lookup es key with
    | some v => .ok { f with values := [v] }
    | none => .error .noKey
  | _ => .error .wrongKind

/-- Values that no place has taken are an error. -/
def finish (f : Filling) : Try Unit :=
  if f.values.isEmpty || f.named.isSome then .ok () else .error .wrongKind

end Filling

def readNat (cs : List Char) : Nat × List Char :=
  let ds := cs.takeWhile Char.isDigit
  (ds.foldl (fun n c => 10 * n + (c.toNat - 48)) 0, cs.drop ds.length)

/-- The text up to the bracket that closes the key, brackets within it being paired. -/
def readKey : Nat → List Char → Option (List Char × List Char)
  | _, [] => none
  | 0, ')' :: rest => some ([], rest)
  | depth, c :: rest =>
    let depth := if c == '(' then depth + 1 else if c == ')' then depth - 1 else depth
    (readKey depth rest).map fun (k, r) => (c :: k, r)

/-- A number that is written out, or a star that takes the next value. -/
def readMeasure (limit : Nat) (f : Filling) (cs : List Char) : Try (Int × Filling × List Char) :=
  match cs with
  | '*' :: rest => do
    let (v, f) ← f.next
    match v with
    | .int n => if limit ≤ n.natAbs then throw .tooLarge else return (n, f, rest)
    | .bool b => return (if b then 1 else 0, f, rest)
    | _ => throw .wrongKind
  | _ =>
    let (n, rest) := readNat cs
    if limit ≤ n then .error .invalid else .ok (n, f, rest)

def incomplete : Fault := .invalid none

def readPlace (f : Filling) (cs : List Char) : Try (Place × Filling × List Char) := do
  let (f, cs) ← match cs with
    | '(' :: rest => do
      if f.named.isNone then throw .wrongKind
      match readKey 0 rest with
      | some (k, rest) => pure (← f.find (String.ofList k), rest)
      | none => throw incomplete
    | _ => pure (f, cs)
  let flags := cs.takeWhile "#0- +".toList.contains
  let (width, f, cs) ← readMeasure (Nat.pow 2 63) f (cs.drop flags.length)
  let flags := if width < 0 then '-' :: flags else flags
  let (precision, f, cs) ← match cs with
    | '.' :: r => do let (n, f, r) ← readMeasure (Nat.pow 2 31) f r; pure (some n.toNat, f, r)
    | _ => pure (none, f, cs)
  let cs := match cs with
    | c :: r => if "hlL".toList.contains c then r else cs
    | [] => []
  match cs with
  | [] => throw incomplete
  | kind :: rest => return ({ flags, width := width.natAbs, precision, kind }, f, rest)

variable (p : Place)

/-- Pads a body with a sign in front. Zeros go between the sign and the digits. -/
def Place.padNumber (negative : Bool) (mark body : String) : String :=
  let sign := if negative then "-" else if p.flags.contains '+' then "+"
    else if p.flags.contains ' ' then " " else ""
  let gap := p.width - (sign ++ mark ++ body).length
  if p.flags.contains '-' then sign ++ mark ++ body ++ Text.repeated gap " "
  else if p.flags.contains '0' then sign ++ mark ++ Text.repeated gap "0" ++ body
  else Text.repeated gap " " ++ sign ++ mark ++ body

def Place.padText (s : String) : String :=
  let gap := Text.repeated (p.width - s.length) " "
  if p.flags.contains '-' then s ++ gap else gap ++ s

def Place.cut (s : String) : String :=
  match p.precision with
  | some n => take n s
  | none => s

/-- A whole number in some base, behind the mark of the base if that is asked for. -/
def Place.whole (n : Int) (base : Nat) (mark : String) (upper : Bool) : String :=
  let digits := Decimal.padLeft (p.precision.getD 0) '0' (String.ofList (Nat.toDigits base n.natAbs))
  let mark := if p.flags.contains '#' then mark else ""
  if upper then p.padNumber (n < 0) mark.toUpper digits.toUpper else p.padNumber (n < 0) mark digits

def Place.real (form : Decimal.Form) (upper : Bool) (v : Value) : Try String := do
  match Number.ofValue? v with
  | none => throw .wrongKind
  | some x =>
    let s := form.write (p.precision.getD 6) (p.flags.contains '#') (← Value.toReal x)
    let negative := hasPrefix s "-"
    let body := if negative then drop 1 s else s
    return p.padNumber negative "" (if upper then body.toUpper else body)

variable (v : Value)

def wholePart : Try Int :=
  match Number.ofValue? v with
  | some (.real x) => if x.isNaN then .error .invalid else if x.isInf then .error .tooLarge
    else .ok (Decimal.truncate x)
  | some (.whole n) => .ok n
  | none => .error .wrongKind

def wholeOnly : Try Int :=
  match Number.ofValue? v with
  | some (.whole n) => .ok n
  | _ => .error .wrongKind

def character : Try String :=
  match v with
  | .text s => if s.length == 1 then .ok s else .error .wrongKind
  | _ => do
    let n ← wholeOnly v
    if 0 ≤ n && n < 0x110000 then return (Char.ofNat n.toNat).toString else throw .tooLarge

def Place.fill : Try String := do
  match p.kind with
  | 's' => return p.padText (p.cut v.display)
  | 'r' => return p.padText (p.cut v.literal)
  | 'a' => return p.padText (p.cut (asciiText v.literal))
  | 'd' | 'i' | 'u' => return p.whole (← wholePart v) 10 "" false
  | 'x' => return p.whole (← wholeOnly v) 16 "0x" false
  | 'X' => return p.whole (← wholeOnly v) 16 "0x" true
  | 'o' => return p.whole (← wholeOnly v) 8 "0o" false
  | 'f' => p.real .fixed false v
  | 'F' => p.real .fixed true v
  | 'e' => p.real .scientific false v
  | 'E' => p.real .scientific true v
  | 'g' => p.real .general false v
  | 'G' => p.real .general true v
  | 'c' => return p.padText (← character v)
  | _ => throw .invalid

def fillFrom : Nat → Filling → List Char → Try String
  | _, f, [] => do f.finish; return ""
  | 0, _, _ => .ok ""
  | fuel + 1, f, '%' :: '%' :: rest => do return "%" ++ (← fillFrom fuel f rest)
  | fuel + 1, f, '%' :: rest => do
    let (p, f, rest) ← readPlace f rest
    let (v, f) ← f.next
    return (← p.fill v) ++ (← fillFrom fuel f rest)
  | fuel + 1, f, c :: rest => do return c.toString ++ (← fillFrom fuel f rest)

/-- Fills all places; values left over are an error, and so are places left empty. -/
def fillPlaces (format : String) (f : Filling) : Try String := fillFrom format.length f format.toList

end SecScan.Text
