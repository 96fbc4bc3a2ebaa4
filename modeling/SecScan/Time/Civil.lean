import SecScan.Fault
import SecScan.Number

/-! Dates of the Gregorian calendar, counted from the first day of 1970. -/
namespace SecScan.Time

structure Date where
  year : Int
  month : Nat
  day : Nat

/-- The date of a day. Years are counted from March, so that the leap day is the last of its year. -/
def Date.ofDays (days : Int) : Date :=
  let z := days + 719468
  let era := Int.fdiv z 146097
  let dayOfEra := (z - era * 146097).toNat
  let yearOfEra := (dayOfEra - dayOfEra / 1460 + dayOfEra / 36524 - dayOfEra / 146096) / 365
  let dayOfYear := dayOfEra - (365 * yearOfEra + yearOfEra / 4 - yearOfEra / 100)
  let m := (5 * dayOfYear + 2) / 153
  let month := if m < 10 then m + 3 else m - 9
  { year := yearOfEra + era * 400 + (if month ≤ 2 then 1 else 0)
    month, day := dayOfYear - (153 * m + 2) / 5 + 1 }

def digits (width : Nat) (n : Nat) : String := Decimal.padLeft width '0' (toString n)

def Date.text (d : Date) : String := digits 4 d.year.toNat ++ "-" ++ digits 2 d.month ++ "-" ++ digits 2 d.day

/-- Microseconds from the start of 1970. -/
abbrev Instant := Int

def nearest (x : Float) : Int :=
  match Decimal.parts x with
  | .finite negative m e => let n : Int := Decimal.scaled m e 0; if negative then -n else n
  | _ => 0

/-- Whole seconds and the millionths of the rest, a half going to the even neighbour. -/
def ofSeconds (x : Float) : Instant :=
  let n := Decimal.truncate x
  n * 1000000 + nearest ((x - Float.ofInt n) * 1000000.0)

def day : Int := 86400 * 1000000

def clockText (second : Nat) : String :=
  digits 2 (second / 3600) ++ ":" ++ digits 2 (second / 60 % 60) ++ ":" ++ digits 2 (second % 60)

variable (t : Instant)

def isoText : String :=
  let within := (Int.fmod t day).toNat
  let micros := within % 1000000
  (Date.ofDays (Int.fdiv t day)).text ++ "T" ++ clockText (within / 1000000) ++
    if micros == 0 then "" else "." ++ digits 6 micros

def beyondClock : Fault := .tooLarge (some "timestamp out of range for platform time_t")

/-- The instant of a number of seconds that a clock of 64 bits can show. -/
def instantOf (v : Value) : Try Instant :=
  let shown (t : Instant) (n : Int) := if -Nat.pow 2 63 ≤ n && n < Nat.pow 2 63 then .ok t else .error beyondClock
  match Number.ofValue? v with
  | some (.whole n) => shown (n * 1000000) n
  | some (.real x) =>
    if x.isNaN then .error (.invalid (some "Invalid value NaN (not a number)"))
    else if x.isInf then .error beyondClock
    else let t := ofSeconds x; shown t (Int.fdiv t 1000000)
  | none => .error .wrongKind

/-- The year of an instant, which a calendar counts in 32 bits from 1900. -/
def shownYear : Try Unit := do
  let year := (Date.ofDays (Int.fdiv t day)).year
  if year - 1900 < -Nat.pow 2 31 || Nat.pow 2 31 ≤ year - 1900 then
    throw (.systemRefused (some "[Errno 75] Value too large for defined data type"))
  if year < 1 || 9999 < year then
    throw (.invalid (some ("year " ++ toString (Int.bmod year (Nat.pow 2 32)) ++ " is out of range")))

/-- Date and time of an instant in the years 1 to 9999. The day before has to be a date, too. -/
def stampOf : Try String := do
  shownYear t
  shownYear (t - day)
  return isoText t

end SecScan.Time
