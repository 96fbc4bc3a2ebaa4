import SecScan.Value.Arithmetic
import SecScan.Value.Literal

/-! Numbers out of other values: doubles, and whole numbers. -/
namespace SecScan.Value

/-- A text without the underscores that stand between digits; others are not allowed. -/
def joinDigits : Bool → List Char → Option (List Char)
  | _, [] => some []
  | true, '_' :: c :: rest => if c.isDigit then (joinDigits true rest).map (c :: ·) else none
  | _, c :: rest => if c == '_' then none else (joinDigits c.isDigit rest).map (c :: ·)

def asciiDigit (c : Char) : Char :=
  match Text.digitValue? c with
  | some n => Char.ofNat (48 + n)
  | none => c

def number (ds : List Char) : Nat := ds.foldl (fun n c => 10 * n + (c.toNat - 48)) 0

def signOf : List Char → Bool × List Char
  | '-' :: r => (true, r)
  | '+' :: r => (false, r)
  | r => (false, r)

def exponent? : List Char → Option Int
  | [] => some 0
  | c :: rest =>
    let (negative, ds) := signOf rest
    if (c == 'e' || c == 'E') && !ds.isEmpty && ds.all Char.isDigit then
      some (if negative then -(number ds : Int) else number ds)
    else none

/-- The double that a text writes: digits with a point and an exponent, or the words for what is no
finite number. -/
def realOf? (s : String) : Option Float := do
  let cs ← joinDigits false ((Text.strip s).toList.map asciiDigit)
  let (negative, cs) := signOf cs
  let word := String.ofList (cs.map Char.toLower)
  if word == "inf" || word == "infinity" then return if negative then -(1.0 / 0.0) else 1.0 / 0.0
  if word == "nan" then return 0.0 / 0.0
  let whole := cs.takeWhile Char.isDigit
  let rest := cs.drop whole.length
  let (places, rest) := match rest with
    | '.' :: r => let p := r.takeWhile Char.isDigit; (p, r.drop p.length)
    | _ => ([], rest)
  if whole.isEmpty && places.isEmpty then none
  let e ← exponent? rest
  return Decimal.ofDigits negative (number (whole ++ places)) (e - places.length)

def asReal (v : Value) : Try Float :=
  match v, Number.ofValue? v with
  | _, some x => toReal x
  | .text s, _ => match realOf? s with
    | some x => .ok x
    | none => .error (.invalid (some ("could not convert string to float: " ++ v.literal)))
  | _, _ => .error (.wrongKind (some ("float() argument must be a string or a real number, not '"
      ++ v.kindName ++ "'")))

/-! Whole numbers -/

def digitsOf? (s : String) : Option Nat :=
  let parts := Text.split s "_"
  if parts.any (·.isEmpty) then none else Text.wholeNumber? (String.join parts)

def signedDigits? (s : String) : Option Int :=
  match s.toList with
  | '-' :: r => (digitsOf? (String.ofList r)).map fun n => -(n : Int)
  | '+' :: r => (digitsOf? (String.ofList r)).map Int.ofNat
  | r => (digitsOf? (String.ofList r)).map Int.ofNat

/-- A number without its fraction, or the number that a text writes. -/
def toWhole (v : Value) : Try Int :=
  match v with
  | .text s => match signedDigits? (Text.strip s) with
    | some n =>
      let digits := (s.toList.filter Text.isDecimal).length
      if 4300 < digits then .error (.invalid (some (Fault.longNumber digits).detail)) else .ok n
    | none => .error (.invalid (some ("invalid literal for int() with base 10: " ++ Text.take 200 v.literal)))
  | .float x =>
    if x.isNaN then .error (.invalid (some "cannot convert float NaN to integer"))
    else if x.isInf then .error (.tooLarge (some "cannot convert float infinity to integer"))
    else .ok (Number.truncate (.real x))
  | v => match Number.ofValue? v with
    | some n => .ok n.truncate
    | none => .error (.wrongKind (some ("int() argument must be a string, a bytes-like object or a real number, not '"
        ++ v.kindName ++ "'")))

end SecScan.Value
