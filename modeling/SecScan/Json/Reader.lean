import SecScan.Value
import SecScan.Decimal.Binary

/-! Reads JSON text. Beside the standard's values the three words `NaN`, `Infinity` and `-Infinity`
are numbers. Of a repeated key the last value counts, at the place of the first. Whole numbers of too
many digits and documents of too many levels are refused. -/
namespace SecScan.Json

inductive Flaw where
  | malformed
  | longNumber (digits : Nat)
  | tooDeep (inMap : Bool)
  deriving DecidableEq, Repr

def digitLimit : Nat := 4300

def levelLimit : Nat := 985

def orMalformed : Option α → Except Flaw α
  | some a => .ok a
  | none => .error .malformed

def isBlank (c : Char) : Bool := c == ' ' || c == '\t' || c == '\n' || c == '\r'

variable (s : List Char)

def skipBlanks : List Char := s.dropWhile isBlank

def hexDigit? (c : Char) : Option Nat :=
  if '0' ≤ c && c ≤ '9' then some (c.toNat - '0'.toNat)
  else if 'a' ≤ c && c ≤ 'f' then some (c.toNat - 'a'.toNat + 10)
  else if 'A' ≤ c && c ≤ 'F' then some (c.toNat - 'A'.toNat + 10)
  else none

def hex4 : List Char → Option (Nat × List Char)
  | a :: b :: c :: d :: rest => do
    let a ← hexDigit? a
    let b ← hexDigit? b
    let c ← hexDigit? c
    let d ← hexDigit? d
    return (((a * 16 + b) * 16 + c) * 16 + d, rest)
  | _ => none

/-- The second half of a surrogate pair, when one follows. -/
def lowSurrogate : List Char → Option (Nat × List Char)
  | '\\' :: 'u' :: rest => do
    let (n, rest) ← hex4 rest
    if 0xdc00 ≤ n && n ≤ 0xdfff then some (n, rest) else none
  | _ => none

/-- A half that stands alone is no character: the replacement character takes its place. -/
def scalar (n : Nat) : Char :=
  if 0xd800 ≤ n && n ≤ 0xdfff then Char.ofNat 0xfffd else Char.ofNat n

def unicodeEscape : Option (Char × List Char) := do
  let (n, rest) ← hex4 s
  if 0xd800 ≤ n && n ≤ 0xdbff then
    match lowSurrogate rest with
    | some (m, rest) => return (Char.ofNat (0x10000 + (n - 0xd800) * 0x400 + (m - 0xdc00)), rest)
    | none => return (scalar n, rest)
  else return (scalar n, rest)

def simpleEscape? : Char → Option Char
  | '"' => some '"'
  | '\\' => some '\\'
  | '/' => some '/'
  | 'b' => some (Char.ofNat 8)
  | 'f' => some (Char.ofNat 12)
  | 'n' => some '\n'
  | 'r' => some '\r'
  | 't' => some '\t'
  | _ => none

def readString : Nat → List Char → List Char → Option (String × List Char)
  | 0, _, _ => none
  | _ + 1, _, [] => none
  | _ + 1, acc, '"' :: rest => some (String.ofList acc.reverse, rest)
  | fuel + 1, acc, '\\' :: 'u' :: rest => do
    let (c, rest) ← unicodeEscape rest
    readString fuel (c :: acc) rest
  | fuel + 1, acc, '\\' :: e :: rest => do
    let c ← simpleEscape? e
    readString fuel (c :: acc) rest
  | fuel + 1, acc, c :: rest =>
    if c == '\\' || c.toNat < 0x20 then none else readString fuel (c :: acc) rest

def isDigit (c : Char) : Bool := '0' ≤ c && c ≤ '9'

def digitsValue (ds : List Char) : Nat := ds.foldl (fun n c => n * 10 + (c.toNat - '0'.toNat)) 0

def readFraction : List Char → List Char × List Char
  | '.' :: rest =>
    let ds := rest.takeWhile isDigit
    if ds.isEmpty then ([], '.' :: rest) else (ds, rest.dropWhile isDigit)
  | s => ([], s)

def exponentDigits (negative : Bool) (s : List Char) : Option (Int × List Char) :=
  let ds := s.takeWhile isDigit
  if ds.isEmpty then none
  else
    let n : Int := digitsValue ds
    some (if negative then -n else n, s.dropWhile isDigit)

/-- The letter e, an optional sign and at least one digit. -/
def readExponent : Option (Int × List Char) :=
  match s with
  | e :: rest =>
    if e == 'e' || e == 'E' then
      match rest with
      | '-' :: r => exponentDigits true r
      | '+' :: r => exponentDigits false r
      | r => exponentDigits false r
    else none
  | [] => none

def cutSign : List Char → Bool × List Char
  | '-' :: r => (true, r)
  | r => (false, r)

/-- The digits before a point; a zero at the head is the only one. -/
def wholePart : List Char → List Char
  | '0' :: _ => ['0']
  | s => s.takeWhile isDigit

/-- The digits of a whole number at the start of a text; none if it has a fraction or an exponent. -/
def wholeDigits : Option Nat :=
  let s := (cutSign s).2
  let n := (wholePart s).length
  let rest := s.drop n
  let (fraction, rest') := readFraction rest
  if fraction.isEmpty && (readExponent rest').isNone then some n else none

/-- A number of which the sign and the whole part have been read. -/
def readRemainder (negative : Bool) (whole s : List Char) : Value × List Char :=
  let (fraction, s') := readFraction s
  match readExponent s' with
  | some (e, rest) => (.float (Decimal.ofDigits negative (digitsValue (whole ++ fraction)) (e - fraction.length)), rest)
  | none =>
    if fraction.isEmpty then
      let n : Int := digitsValue whole
      (.int (if negative then -n else n), s)
    else
      (.float (Decimal.ofDigits negative (digitsValue (whole ++ fraction)) (-(fraction.length : Int))), s')

def readNumber : Option (Value × List Char) :=
  let (negative, s) := cutSign s
  let whole := wholePart s
  if whole.isEmpty then none else some (readRemainder negative whole (s.drop whole.length))

def word? (w : String) (s : List Char) : Option (List Char) :=
  if w.toList.isPrefixOf s then some (s.drop w.length) else none

def readAtom : Option (Value × List Char) :=
  (word? "null" s).map (.null, ·) <|> (word? "true" s).map (.bool true, ·) <|> (word? "false" s).map (.bool false, ·)
    <|> (word? "NaN" s).map (.float (0.0 / 0.0), ·)
    <|> (word? "Infinity" s).map (.float (1.0 / 0.0), ·)
    <|> (word? "-Infinity" s).map (.float (-1.0 / 0.0), ·)
    <|> readNumber s

/-- The same, without whole numbers that are too long. -/
def readShortAtom : Except Flaw (Value × List Char) :=
  match wholeDigits s with
  | some n => if digitLimit < n then .error (.longNumber n) else orMalformed (readAtom s)
  | none => orMalformed (readAtom s)

inductive Separator where
  | more (rest : List Char)
  | done (rest : List Char)

def separator? (close : Char) (s : List Char) : Except Flaw Separator :=
  match skipBlanks s with
  | c :: rest => if c == ',' then .ok (.more rest) else if c == close then .ok (.done rest) else .error .malformed
  | [] => .error .malformed

/-- What stands behind a closing bracket, if that is what comes next. -/
def closed? (close : Char) (s : List Char) : Option (List Char) :=
  match skipBlanks s with
  | c :: rest => if c == close then some rest else none
  | [] => none

def readKey (fuel : Nat) (s : List Char) : Except Flaw (String × List Char) :=
  match skipBlanks s with
  | '"' :: s => do
    let (k, s) ← orMalformed (readString fuel [] s)
    match skipBlanks s with
    | ':' :: s => return (k, s)
    | _ => .error .malformed
  | _ => .error .malformed

mutual

def readValue : Nat → Nat → List Char → Except Flaw (Value × List Char)
  | 0, _, _ => .error .malformed
  | _ + 1, _, [] => .error .malformed
  | fuel + 1, levels, c :: s =>
    if c == '"' then (orMalformed (readString (fuel + 1) [] s)).map fun (t, r) => (.text t, r)
    else if c == '[' then
      match levels with
      | 0 => .error (.tooDeep false)
      | levels + 1 => match closed? ']' s with
        | some r => .ok (.list [], r)
        | none => readItems fuel levels [] s
    else if c == '\x7b' then
      match levels with
      | 0 => .error (.tooDeep true)
      | levels + 1 => match closed? '\x7d' s with
        | some r => .ok (.map [], r)
        | none => readMembers fuel levels [] s
    else readShortAtom (c :: s)

def readItems : Nat → Nat → List Value → List Char → Except Flaw (Value × List Char)
  | 0, _, _, _ => .error .malformed
  | fuel + 1, levels, acc, s => do
    let (v, s) ← readValue fuel levels (skipBlanks s)
    match ← separator? ']' s with
    | .more rest => readItems fuel levels (v :: acc) rest
    | .done rest => return (.list (v :: acc).reverse, rest)

def readMembers : Nat → Nat → Fields → List Char → Except Flaw (Value × List Char)
  | 0, _, _, _ => .error .malformed
  | fuel + 1, levels, acc, s => do
    let (k, s) ← readKey (fuel + 1) s
    let (v, s) ← readValue fuel levels (skipBlanks s)
    match ← separator? '\x7d' s with
    | .more rest => readMembers fuel levels (putField k v acc) rest
    | .done rest => return (.obj (putField k v acc), rest)

end

def parse (text : String) : Except Flaw Value := do
  let s := text.toList
  let (v, rest) ← readValue (s.length + 1) levelLimit (skipBlanks s)
  if (skipBlanks rest).isEmpty then return v else throw .malformed

def parse? (text : String) : Option Value := (parse text).toOption

end SecScan.Json
