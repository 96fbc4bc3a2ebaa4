import SecScan.Data

/-! The order of the keys of a TOML document. Readers of TOML need not keep it; here it is taken
from the text. -/
namespace SecScan.Toml

abbrev Keys := List (List String)

def skipBlanks (s : List Char) : List Char := s.dropWhile fun c => c == ' ' || c == '\t'

def skipGap (inComment : Bool) : List Char → List Char
  | [] => []
  | c :: r =>
    if inComment then skipGap (c != '\n') r
    else if c == ' ' || c == '\t' || c == '\n' || c == '\r' then skipGap false r
    else if c == '#' then skipGap true r
    else c :: r

/-- The character that an escape stands for, by the letter behind the backslash and the digits that
follow it. -/
def escaped (c : Char) (digits : List Char) : Char :=
  match c with
  | 'b' => '\x08'
  | 't' => '\t'
  | 'n' => '\n'
  | 'f' => '\x0c'
  | 'r' => '\r'
  | 'u' | 'U' => Char.ofNat ((digits.filterMap Json.hexDigit?).foldl (fun n d => 16 * n + d) 0)
  | c => c

def escapeDigits (c : Char) : Nat := if c == 'u' then 4 else if c == 'U' then 8 else 0

/-- The text up to a quote and what follows it. The number counts digits of an escape that are still to
be passed over. -/
def quoted (q : Char) (escapes : Bool) : Nat → List Char → List Char × List Char
  | _, [] => ([], [])
  | n + 1, _ :: r => quoted q escapes n r
  | 0, '\\' :: c :: r =>
    if escapes then
      let (s, rest) := quoted q escapes (escapeDigits c) r
      (escaped c (r.take (escapeDigits c)) :: s, rest)
    else let (s, r) := quoted q escapes 0 (c :: r); ('\\' :: s, r)
  | 0, c :: r => if c == q then ([], r) else let (s, r) := quoted q escapes 0 r; (c :: s, r)

/-- What follows a text between triple quotes; it may end in quotes itself. -/
def afterLongText (q : Char) (escapes : Bool) : List Char → List Char
  | [] => []
  | c :: r =>
    if c == q && (r.take 2 == [q, q]) then
      let r := r.drop 2
      if r.take 2 == [q, q] then r.drop 2 else if r.head? == some q then r.drop 1 else r
    else if escapes && c == '\\' then match r with
      | _ :: r => afterLongText q escapes r
      | [] => []
    else afterLongText q escapes r

def isBare (c : Char) : Bool := Text.Pattern.asciiAlphanumeric c || c == '_' || c == '-'

def keyPart : List Char → String × List Char
  | '"' :: r => let (s, r) := quoted '"' true 0 r; (String.ofList s, r)
  | '\'' :: r => let (s, r) := quoted '\'' false 0 r; (String.ofList s, r)
  | s => (String.ofList (s.takeWhile isBare), s.dropWhile isBare)

def readKey : Nat → List Char → List String × List Char
  | 0, s => ([], s)
  | n + 1, s =>
    let (k, r) := keyPart (skipBlanks s)
    match skipBlanks r with
    | '.' :: r => let (ks, r) := readKey n r; (k :: ks, r)
    | r => ([k], r)

mutual

/-- The keys inside a value that stands under a key, and what follows it. -/
def readValue : Nat → List String → List Char → Keys × List Char
  | 0, _, s => ([], s)
  | n + 1, path, s => match s with
    | '"' :: '"' :: '"' :: r => ([], afterLongText '"' true r)
    | '\'' :: '\'' :: '\'' :: r => ([], afterLongText '\'' false r)
    | '"' :: r => ([], (quoted '"' true 0 r).2)
    | '\'' :: r => ([], (quoted '\'' false 0 r).2)
    | '[' :: r => ([], readItems n r)
    | '{' :: r => readPairs n path r
    | s => ([], s.dropWhile fun c => !(c == ',' || c == ']' || c == '}' || c == '#' || c == '\n'))

def readItems : Nat → List Char → List Char
  | 0, s => s
  | n + 1, s => match skipGap false s with
    | ']' :: r => r
    | ',' :: r => readItems n r
    | [] => []
    | s => readItems n (readValue n [] s).2

def readPairs : Nat → List String → List Char → Keys × List Char
  | 0, _, s => ([], s)
  | n + 1, path, s => match skipGap false s with
    | '}' :: r => ([], r)
    | ',' :: r => readPairs n path r
    | [] => ([], [])
    | s =>
      let (k, r) := readKey s.length s
      let here := path ++ k
      let (inner, r) := readValue n here (skipBlanks ((skipBlanks r).drop 1))
      let (rest, r) := readPairs n path r
      (here :: inner ++ rest, r)

end

def readLines : Nat → List String → List Char → Keys
  | 0, _, _ => []
  | n + 1, table, s => match skipGap false s with
    | [] => []
    | '[' :: '[' :: r => let (k, r) := readKey r.length r; k :: readLines n k (r.dropWhile (· != '\n'))
    | '[' :: r => let (k, r) := readKey r.length r; k :: readLines n k (r.dropWhile (· != '\n'))
    | s =>
      let (k, r) := readKey s.length s
      let here := table ++ k
      let (inner, r) := readValue r.length here (skipBlanks ((skipBlanks r).drop 1))
      here :: inner ++ readLines n table r

def keysOf (text : String) : Keys := readLines text.length [] text.toList

variable (keys : Keys)

def rank (path : List String) : Nat := (keys.findIdx? path.isPrefixOf).getD keys.length

mutual

def arrange (path : List String) : Value → Value
  | .map es => .map ((arrangeAll path es).mergeSort fun a b =>
      rank keys (path ++ [a.1.text?.getD ""]) ≤ rank keys (path ++ [b.1.text?.getD ""]))
  | v => v

def arrangeAll (path : List String) : Entries → Entries
  | [] => []
  | (k, v) :: es => (k, arrange (path ++ [k.text?.getD ""]) v) :: arrangeAll path es

end

def inTextOrder (text : String) (doc : Value) : Value := arrange (keysOf text) [] doc

end SecScan.Toml
