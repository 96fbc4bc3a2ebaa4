import SecScan.Decimal.Shortest
import SecScan.Fault
import SecScan.Json.Reader

/-! Writes JSON text, on one line or indented, and puts the keys of maps in order. -/
namespace SecScan.Json

inductive WriteError where
  /-- Bytes, complex numbers, sets and the ellipsis have no JSON form. -/
  | unwritable
  /-- A map's key has no text form, or two keys cannot be ordered. -/
  | badKey
  | longNumber
  deriving DecidableEq, Repr

structure Style where
  indent : Option Nat := none
  ascii : Bool := true
  itemSeparator : String := ", "
  keySeparator : String := ": "

variable (n : Nat)

def hexChar : Char :=
  if n < 10 then Char.ofNat ('0'.toNat + n) else Char.ofNat ('a'.toNat + (n - 10))

def hexUnit : String :=
  String.ofList ['\\', 'u', hexChar (n / 4096 % 16), hexChar (n / 256 % 16), hexChar (n / 16 % 16), hexChar (n % 16)]

/-- Characters above the basic plane take two units. -/
def unicodeUnits : String :=
  if n < 0x10000 then hexUnit n
  else hexUnit (0xd800 + (n - 0x10000) / 0x400) ++ hexUnit (0xdc00 + (n - 0x10000) % 0x400)

/-- What stands for some characters behind a backslash. -/
def escapes : List (Char × Char) :=
  [('"', '"'), ('\\', '\\'), ('\n', 'n'), ('\r', 'r'), ('\t', 't'), ('\x08', 'b'), ('\x0c', 'f')]

def escapeChar (ascii : Bool) (acc : String) (c : Char) : String :=
  match escapes.lookup c with
  | some e => (acc.push '\\').push e
  | none => if c.toNat < 0x20 || (ascii && 0x7f ≤ c.toNat) then acc ++ unicodeUnits c.toNat else acc.push c

def quoteOnto (ascii : Bool) (acc s : String) : String := (s.foldl (escapeChar ascii) (acc.push '"')).push '"'

/-- Numbers in their shortest text; the three that are no numbers as words. -/
def floatText (x : Float) : String :=
  match Decimal.parts x with
  | .nan => "NaN"
  | .infinite negative => if negative then "-Infinity" else "Infinity"
  | .finite .. => Decimal.shortest x

def boolText (b : Bool) : String := if b then "true" else "false"

def intText (n : Int) : Except WriteError String :=
  if digitLimit < (toString n.natAbs).length then .error .longNumber else .ok (toString n)

def keyText : Value → Except WriteError String
  | .text s => .ok s
  | .int n => intText n
  | .float x => .ok (floatText x)
  | .bool b => .ok (boolText b)
  | .null => .ok "null"
  | _ => .error .badKey

variable (st : Style)

/-- What stands before an element at a nesting level: nothing on one line, else a line break. -/
def Style.newline (level : Nat) (acc : String) : String :=
  match st.indent with
  | none => acc
  | some w => (List.range (w * level)).foldl (fun a _ => a.push ' ') (acc.push '\n')

def Style.between : String :=
  match st.indent with
  | none => st.itemSeparator
  | some _ => ","

mutual

def writeOnto (level : Nat) (acc : String) : Value → Except WriteError String
  | .null => .ok (acc ++ "null")
  | .bool b => .ok (acc ++ boolText b)
  | .int n => (intText n).map (acc ++ ·)
  | .float x => .ok (acc ++ floatText x)
  | .text s => .ok (quoteOnto st.ascii acc s)
  | .list l | .tuple l => writeItems level acc l
  | .map [] => .ok (acc ++ "\x7b\x7d")
  | .map (e :: rest) => do
    let acc ← writeEntries (level + 1) true (acc.push '\x7b') (e :: rest)
    return (st.newline level acc).push '\x7d'
  | _ => .error .unwritable

def writeItems (level : Nat) (acc : String) : List Value → Except WriteError String
  | [] => .ok (acc ++ "[]")
  | v :: rest => do
    let acc ← writeOnto (level + 1) (st.newline (level + 1) (acc.push '[')) v
    let acc ← writeRest (level + 1) acc rest
    return (st.newline level acc).push ']'

def writeRest (level : Nat) (acc : String) : List Value → Except WriteError String
  | [] => .ok acc
  | v :: rest => do
    let acc ← writeOnto level (st.newline level (acc ++ st.between)) v
    writeRest level acc rest

def writeEntries (level : Nat) (first : Bool) (acc : String) :
    Entries → Except WriteError String
  | [] => .ok acc
  | (k, v) :: rest => do
    let k ← keyText k
    let acc := st.newline level (if first then acc else acc ++ st.between)
    let acc ← writeOnto level (quoteOnto st.ascii acc k ++ st.keySeparator) v
    writeEntries level false acc rest

end

def write (v : Value) : Except WriteError String := writeOnto st 0 "" v

def sortFields (fields : Fields) : Fields := fields.mergeSort fun a b => a.1 ≤ b.1

/-- A map's entries in the order of their keys: all texts, or all whole numbers. -/
def sortEntries (entries : Entries) : Except WriteError Entries :=
  if entries.length < 2 then .ok entries
  else if entries.all fun e => e.1.isText then
    .ok ((entries.filterMap fun (k, v) => k.text?.map (·, v)).mergeSort (fun a b => a.1 ≤ b.1)
      |>.map fun (k, v) => (.text k, v))
  else if entries.all fun e => e.1.int?.isSome then
    .ok ((entries.filterMap fun (k, v) => k.int?.map (·, v)).mergeSort (fun a b => a.1 ≤ b.1)
      |>.map fun (k, v) => (.int k, v))
  else .error .badKey

mutual

def sortKeys : Value → Except WriteError Value
  | .list l | .tuple l => do return .list (← sortKeysAll l)
  | .map l => do return .map (← sortEntries (← sortKeysIn l))
  | v => .ok v

def sortKeysAll : List Value → Except WriteError (List Value)
  | [] => .ok []
  | v :: rest => do return (← sortKeys v) :: (← sortKeysAll rest)

def sortKeysIn : Entries → Except WriteError Entries
  | [] => .ok []
  | (k, v) :: rest => do return (k, ← sortKeys v) :: (← sortKeysIn rest)

end

/-! JSON texts of documents. -/

def asFault : WriteError → Fault
  | .longNumber => .invalid (some ("Exceeds the limit (4300 digits) for integer string conversion; "
      ++ "use sys.set_int_max_str_digits() to increase the limit"))
  | _ => .wrongKind

def render (v : Value) : Try String := (write st v).mapError asFault

def renderSorted (v : Value) : Try String := do
  render st (← (sortKeys v).mapError asFault)

def indented : Style := { indent := some n }

def Flaw.fault : Flaw → Fault
  | .malformed => .notJson
  | .longNumber n => .longNumber n
  | .tooDeep inMap => .tooDeep inMap

def read (s : String) : Try Value := (parse s).mapError Flaw.fault

def readIfJson (s : String) : Try (Option Value) :=
  match read s with
  | .ok v => .ok (some v)
  | .error .notJson => .ok none
  | .error e => .error e

/-- Reads a document; a text that is no JSON, or has a number with too many digits, gives none. -/
def readIfSound (s : String) : Try (Option Value) :=
  match readIfJson s with
  | .error (.longNumber _) => .ok none
  | r => r

end SecScan.Json
