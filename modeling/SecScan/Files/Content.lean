import SecScan.Fault
import SecScan.Text.Search
import SecScan.Value

/-! What files hold. -/
namespace SecScan.Files

/-! Bytes that stand for text in UTF-8, and where bytes stop doing so. -/

/-- What may follow a byte: how many bytes complete its character, and the least and the greatest
that the next of them may be. -/
structure Owed where
  count : Nat := 0
  least : UInt8 := 0x80
  greatest : UInt8 := 0xBF

/-- What a character owes after its first byte, if a character can start so. -/
def owedAfter? (b : UInt8) : Option Owed :=
  if b ≤ 0x7F then some {}
  else if b < 0xC2 then none
  else if b ≤ 0xDF then some { count := 1 }
  else if b == 0xE0 then some { count := 2, least := 0xA0 }
  else if b == 0xED then some { count := 2, greatest := 0x9F }
  else if b ≤ 0xEF then some { count := 2 }
  else if b == 0xF0 then some { count := 3, least := 0x90 }
  else if b ≤ 0xF3 then some { count := 3 }
  else if b == 0xF4 then some { count := 3, greatest := 0x8F }
  else none

/-- A character that is not written as it should be: where it starts, and the place of the byte that
shows it, unless it is the end of the bytes that does. -/
structure Flaw where
  start : Nat
  seen : Option Nat

/-- Half of a pair, which is no character, shows only by the byte behind it. -/
def flawFrom (start : Nat) (owed : Owed) (place : Nat) : List UInt8 → Option Flaw
  | [] => if owed.count == 0 then none else some ⟨start, none⟩
  | b :: rest =>
    if owed.count == 0 then match owedAfter? b with
      | none => some ⟨place, some place⟩
      | some o => flawFrom place o (place + 1) rest
    else if owed.least ≤ b && b ≤ owed.greatest then
      flawFrom start { count := owed.count - 1 } (place + 1) rest
    else if owed.greatest == 0x9F && 0x9F < b && b ≤ 0xBF then
      some ⟨start, if rest.isEmpty then none else some (place + 1)⟩
    else some ⟨start, some place⟩

variable (b : List UInt8)

def flaw? : Option Flaw := flawFrom 0 {} 0 b

def blockSize : Nat := 8192

def wholeCharacters : List UInt8 :=
  match flaw? b with
  | none => b
  | some f => b.take f.start

/-- What has been read before a flaw shows: the whole characters of the blocks before its own. -/
def beforeFlaw : List UInt8 :=
  match flaw? b with
  | none => b
  | some ⟨start, none⟩ => b.take start
  | some ⟨_, some place⟩ => wholeCharacters (b.take (place / blockSize * blockSize))

inductive Content where
  | text (s : String)
  | bytes (b : List UInt8)
  deriving Inhabited

namespace Content

def decode : Content → Try String
  | .text s => .ok s
  | .bytes b => match String.fromUTF8? (ByteArray.mk b.toArray) with
    | some s => .ok s
    | none => .error .notText

def size : Content → Nat
  | .text s => s.utf8ByteSize
  | .bytes b => b.length

def toBytes : Content → List UInt8
  | .text s => s.toUTF8.toList
  | .bytes b => b

def unixLines : List Char → List Char
  | '\r' :: '\n' :: r => '\n' :: unixLines r
  | '\r' :: r => '\n' :: unixLines r
  | c :: r => c :: unixLines r
  | [] => []

variable (c : Content)

/-- The text of a file; each of the three ways to end a line becomes a newline. -/
def read : Try String := do
  let s ← c.decode
  return if s.toList.contains '\r' then String.ofList (unixLines s.toList) else s

/-- The lines of a file without their ends; what follows the last end is a line unless empty. -/
def readLines : Try (List String) := do
  let l := Text.split (← c.read) "\n"
  return if l.getLast? == some "" then l.dropLast else l

def withoutLastReturn (s : List Char) : List Char :=
  if s.getLast? == some '\r' then s.dropLast else s

/-- The lines that can be read, and what ends the reading, if something does. Of bytes that do not
stand for text those lines count whose end has been read before the flaw shows; a carriage return
ends a line only once it is clear what follows it. -/
def linesSoFar : List String × Option Fault :=
  match c with
  | .text _ => (c.readLines.toOption.getD [], none)
  | .bytes b => match c.readLines with
    | .ok l => (l, none)
    | .error e =>
      let head := (String.fromUTF8? (ByteArray.mk (beforeFlaw b).toArray)).getD ""
      let ended := String.ofList (unixLines (withoutLastReturn head.toList))
      ((Text.split ended "\n").dropLast, some e)

def ofValue? : Value → Option Content
  | .text s => some (.text s)
  | .bytes b => some (.bytes b)
  | _ => none

end Content

end SecScan.Files
