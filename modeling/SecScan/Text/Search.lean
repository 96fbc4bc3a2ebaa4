/-! Finding, replacing and splitting at a piece of text, at white space and at the ends of lines. -/
namespace SecScan.Text

/-- Whether a piece occurs in a text. The empty one always does. -/
def occursIn (piece : List Char) : List Char → Bool
  | [] => piece.isEmpty
  | c :: rest => piece.isPrefixOf (c :: rest) || occursIn piece rest

variable (s piece : String)

def holds : Bool := occursIn piece.toList s.toList

def hasPrefix : Bool := piece.toList.isPrefixOf s.toList

def hasSuffix : Bool := piece.toList.isSuffixOf s.toList

def indexFrom (piece : List Char) : Nat → List Char → Option Nat
  | i, [] => if piece.isEmpty then some i else none
  | i, c :: rest => if piece.isPrefixOf (c :: rest) then some i else indexFrom piece (i + 1) rest

/-- Where a piece first begins, counted in characters. -/
def index? : Option Nat := indexFrom piece.toList 0 s.toList

def lastIndex? : Option Nat :=
  (indexFrom piece.toList.reverse 0 s.toList.reverse).map fun i => s.length - i - piece.length

/-- The pieces between the places where a separator stands; `skip` characters of one are still to be
passed. -/
def splitFrom (sep : List Char) : List Char → Nat → List Char → List String
  | cur, _, [] => [String.ofList cur.reverse]
  | cur, skip + 1, _ :: rest => splitFrom sep cur skip rest
  | cur, 0, c :: rest =>
    if !sep.isEmpty && sep.isPrefixOf (c :: rest) then
      String.ofList cur.reverse :: splitFrom sep [] (sep.length - 1) rest
    else splitFrom sep (c :: cur) 0 rest

def split (s sep : String) : List String := splitFrom sep.toList [] 0 s.toList

def cut? (s sep : String) : Option (String × String) :=
  (index? s sep).map fun i => ((s.take i).toString, (s.drop (i + sep.length)).toString)

def join (sep : String) (l : List String) : String := String.intercalate sep l

def replace (s old new : String) : String := join new (split s old)

def take (n : Nat) (s : String) : String := (s.take n).toString

def drop (n : Nat) (s : String) : String := (s.drop n).toString

variable (s : String)

/-- A place in a text; a negative one is counted from the end. -/
def place (i : Int) : Nat := if i < 0 then s.length - i.natAbs else min i.toNat s.length

def sliceTo (i : Int) : String := take (place s i) s

def sliceFrom (i : Int) : String := drop (place s i) s

def repeated (n : Nat) (s : String) : String := String.join (List.replicate n s)

/-! White space, and cutting and splitting at it. -/

/-- Spaces, tabs and the characters that end a line or separate information. -/
def isBlank (c : Char) : Bool :=
  let n := c.toNat
  (0x09 ≤ n && n ≤ 0x0d) || (0x1c ≤ n && n ≤ 0x20) || n == 0x85 || n == 0xa0 || n == 0x1680
    || (0x2000 ≤ n && n ≤ 0x200a) || n == 0x2028 || n == 0x2029 || n == 0x202f || n == 0x205f
    || n == 0x3000

def trimWith (p : Char → Bool) (s : List Char) : List Char := ((s.dropWhile p).reverse.dropWhile p).reverse

def strip : String := String.ofList (trimWith isBlank s.toList)

def stripLeft : String := String.ofList (s.toList.dropWhile isBlank)

def stripRight : String := String.ofList (s.toList.reverse.dropWhile isBlank).reverse

def wordsFrom : List Char → List Char → List String
  | [], [] => []
  | cur, [] => [String.ofList cur.reverse]
  | cur, c :: rest =>
    if isBlank c then
      if cur.isEmpty then wordsFrom [] rest else String.ofList cur.reverse :: wordsFrom [] rest
    else wordsFrom (c :: cur) rest

def words : List String := wordsFrom [] s.toList

/-! Lines of a text. A line ends at any of the characters that break lines, a carriage return and a
line feed together counting as one. -/

def isLineEnd (c : Char) : Bool :=
  let n := c.toNat
  (0x0a ≤ n && n ≤ 0x0d) || (0x1c ≤ n && n ≤ 0x1e) || n == 0x85 || n == 0x2028 || n == 0x2029

def linesFrom : List Char → List Char → List (List Char × List Char)
  | [], [] => []
  | cur, [] => [(cur.reverse, [])]
  | cur, '\r' :: '\n' :: rest => (cur.reverse, ['\r', '\n']) :: linesFrom [] rest
  | cur, c :: rest =>
    if isLineEnd c then (cur.reverse, [c]) :: linesFrom [] rest else linesFrom (c :: cur) rest

def lines : List String := (linesFrom [] s.toList).map fun (l, _) => String.ofList l

def linesKeepingEnds : List String := (linesFrom [] s.toList).map fun (l, e) => String.ofList (l ++ e)

end SecScan.Text
