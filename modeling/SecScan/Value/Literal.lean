import SecScan.Json.Writer
import SecScan.Text.Character

/-! Values as literals: quoted where they stand inside others, plain on their own. -/
namespace SecScan

/-- Double quotes only where they spare escapes. -/
def quoteFor (hasSingle hasDouble : Bool) : Char := if hasSingle && !hasDouble then '"' else '\''

def hexDigits (width n : Nat) : List Char :=
  (List.range width).map fun i => Json.hexChar (n / Nat.pow 16 (width - 1 - i) % 16)

def numbered (c : Char) : List Char :=
  if c.toNat < 0x100 then '\\' :: 'x' :: hexDigits 2 c.toNat
  else if c.toNat < 0x10000 then '\\' :: 'u' :: hexDigits 4 c.toNat
  else '\\' :: 'U' :: hexDigits 8 c.toNat

/-- Characters that are not shown become numbered escapes. -/
def escapeLiteral (shown : Char → Bool) (q c : Char) : List Char :=
  if c == q || c == '\\' then ['\\', c]
  else if c == '\t' then ['\\', 't']
  else if c == '\n' then ['\\', 'n']
  else if c == '\r' then ['\\', 'r']
  else if shown c then [c]
  else numbered c

/-- A text in which all but ASCII characters have become numbered escapes. -/
def asciiText (s : String) : String :=
  String.ofList (s.toList.flatMap fun c => if c.toNat < 0x80 then [c] else numbered c)

def textLiteral (s : String) : String :=
  let q := quoteFor (s.contains '\'') (s.contains '"')
  String.ofList (q :: s.toList.flatMap (escapeLiteral Text.isPrintable q) ++ [q])

def escapeByte (q : Char) (b : UInt8) : List Char :=
  escapeLiteral (fun c => ' ' ≤ c && c ≤ '~') q (Char.ofNat b.toNat)

def bytesLiteral (b : List UInt8) : String :=
  let q := quoteFor (b.contains 39) (b.contains 34)
  String.ofList ('b' :: q :: b.flatMap (escapeByte q) ++ [q])

/-- A complex number without a real part is written by its imaginary part alone. -/
def complexLiteral (re im : Float) : String :=
  let part := Decimal.render { point := false }
  if re.toBits == 0 then part im ++ "j"
  else
    let sign := if (part im).startsWith "-" then "" else "+"
    "(" ++ part re ++ sign ++ part im ++ "j)"

namespace Value

mutual

def literal : Value → String
  | .null => "None"
  | .bool b => if b then "True" else "False"
  | .int n => toString n
  | .float x => Decimal.shortest x
  | .text s => textLiteral s
  | .bytes b => bytesLiteral b
  | .complex re im => complexLiteral re im
  | .ellipsis => "Ellipsis"
  | .list l => "[" ++ String.intercalate ", " (literals l) ++ "]"
  | .tuple [v] => "(" ++ literal v ++ ",)"
  | .tuple l => "(" ++ String.intercalate ", " (literals l) ++ ")"
  | .set [] => "set()"
  | .set l => "\x7b" ++ String.intercalate ", " (literals l) ++ "\x7d"
  | .map l => "\x7b" ++ String.intercalate ", " (entryLiterals l) ++ "\x7d"

def literals : List Value → List String
  | [] => []
  | v :: vs => literal v :: literals vs

def entryLiterals : Entries → List String
  | [] => []
  | (k, v) :: es => (literal k ++ ": " ++ literal v) :: entryLiterals es

end

/-- A value on its own: texts stand without quotes. -/
def display : Value → String
  | .text s => s
  | v => v.literal

end Value

end SecScan
