import SecScan.Syntax.Lexeme

/-! What may be wrong inside of number and string literals. -/
namespace SecScan.Syntax

/-! Numbers -/

def maxDigits : Nat := 4300

def numberFlaw (text : String) : Option String :=
  let digits := text.toList.filter (· != '_')
  if digits.all Char.isDigit && maxDigits < digits.length then
    some ("Exceeds the limit (" ++ toString maxDigits ++ " digits) for integer string conversion: value has "
      ++ toString digits.length ++ " digits; use sys.set_int_max_str_digits() to increase the limit - "
      ++ "Consider hexadecimal for huge integer literals to avoid decimal conversion limits.")
  else none

/-! Strings -/

structure Quotation where
  bytes : Bool
  raw : Bool
  formatted : Bool
  body : List Char

def isQuote (c : Char) : Bool := c == '"' || c == '\''

def Quotation.of (text : String) : Quotation :=
  let cs := text.toList
  let marks := cs.takeWhile (!isQuote ·)
  let rest := cs.drop marks.length
  let width := match rest with
    | a :: b :: c :: _ => if a == b && b == c && 6 ≤ rest.length then 3 else 1
    | _ => 1
  let has (c : Char) : Bool := marks.any (·.toLower == c)
  { bytes := has 'b', raw := has 'r', formatted := has 'f'
    body := (rest.drop width).take (rest.length - 2 * width) }

def isFormatted (text : String) : Bool := (Quotation.of text).formatted

structure StringRules where
  /-- Finds what is wrong with an expression inside a string, given the line where it starts. -/
  judge : String → Nat → Option Complaint
  namesKnown : Bool := true

/-! Escapes -/

def isHex (c : Char) : Bool := (Json.hexDigit? c).isSome

def hexValue (cs : List Char) : Nat := cs.foldl (fun n c => 16 * n + (Json.hexDigit? c).getD 0) 0

def width (c : Char) : Nat := if c.toNat < 128 then 1 else 10

def undecodable (start size : Nat) (reason : String) : String :=
  let place := if size == 1 then "byte 0x5c in position " ++ toString start
    else "bytes in position " ++ toString start ++ "-" ++ toString (start + size - 1)
  "(unicode error) 'unicodeescape' codec can't decode " ++ place ++ ": " ++ reason

def hexFlaw (start n : Nat) (name : String) (rest : List Char) : Option String :=
  let digits := (rest.take n).takeWhile isHex
  if digits.length < n then some (undecodable start (2 + digits.length) ("truncated \\" ++ name ++ " escape"))
  else if 0x10ffff < hexValue digits then some (undecodable start (2 + n) "illegal Unicode character")
  else none

def nameFlaw (known : Bool) (start : Nat) (rest : List Char) : Option String :=
  let malformed (n : Nat) : Option String := some (undecodable start n "malformed \\N character escape")
  match rest with
  | '\x7b' :: rest =>
    let name := rest.takeWhile (· != '\x7d')
    let size := name.foldl (fun n c => n + width c) 0
    if name.length == rest.length then malformed (3 + size)
    else if name.isEmpty then malformed 3
    else if known then none
    else some (undecodable start (4 + size) "unknown Unicode character name")
  | _ => malformed 2

def escapeFlaw (known : Bool) (start : Nat) : List Char → Option String
  | [] => none
  | '\\' :: c :: rest =>
    let flaw := match c with
      | 'x' => hexFlaw start 2 "xXX" rest
      | 'u' => hexFlaw start 4 "uXXXX" rest
      | 'U' => hexFlaw start 8 "UXXXXXXXX" rest
      | 'N' => nameFlaw known start rest
      | _ => none
    match flaw with
    | some m => some m
    | none =>
      if width c == 1 then escapeFlaw known (start + 2) rest else escapeFlaw known (start + 6 + width c) rest
  | c :: rest => escapeFlaw known (start + width c) rest

def byteFlaw (start : Nat) : List Char → Option String
  | [] => none
  | '\\' :: 'x' :: rest =>
    if ((rest.take 2).takeWhile isHex).length < 2 then
      some ("(value error) invalid \\x escape at position " ++ toString start)
    else byteFlaw (start + 2) rest
  | '\\' :: _ :: rest => byteFlaw (start + 2) rest
  | _ :: rest => byteFlaw (start + 1) rest

/-! Formatted strings -/

/-- What is wrong with strings: something at a place of its own, something at the place that the reading has
come to, or something in an expression inside of them. -/
inductive StringFlaw where
  | located (c : Complaint)
  | here (message : String)
  | inner (c : Complaint)

structure Formatted where
  raw : Bool
  line : Nat
  body : List Char
  rules : StringRules

/-- A place inside an expression: the open brackets, and the quote of the string it is in. -/
structure Inside where
  brackets : List Char := []
  quote : Option (List Char) := none

def maxNested : Nat := 200

/-- The rest behind an expression, from the character that ends it. `skip` characters are passed over. -/
def afterExpression (s : Inside) (skip : Nat) : List Char → Except String (List Char)
  | [] =>
    if s.quote.isSome then .error "f-string: unterminated string"
    else match s.brackets with
      | b :: _ => .error ("f-string: unmatched '" ++ b.toString ++ "'")
      | [] => .ok []
  | c :: rest =>
    if 0 < skip then afterExpression s (skip - 1) rest
    else if c == '\\' then .error "f-string expression part cannot include a backslash"
    else match s.quote with
      | some q =>
        if q.isPrefixOf (c :: rest) then afterExpression { s with quote := none } (q.length - 1) rest
        else afterExpression s 0 rest
      | none =>
        if isQuote c then
          let q := if [c, c].isPrefixOf rest then [c, c, c] else [c]
          afterExpression { s with quote := some q } (q.length - 1) rest
        else if c == '[' || c == '\x7b' || c == '(' then
          if maxNested ≤ s.brackets.length then .error "f-string: too many nested parenthesis"
          else afterExpression { s with brackets := c :: s.brackets } 0 rest
        else if c == '#' then .error "f-string expression part cannot include '#'"
        else if s.brackets.isEmpty && "!:\x7d=<>".contains c then
          if "!=<>".contains c && rest.head? == some '=' then afterExpression s 1 rest
          else if c == '<' || c == '>' then afterExpression s 0 rest
          else .ok (c :: rest)
        else if c == ']' || c == '\x7d' || c == ')' then
          match s.brackets with
          | [] => .error ("f-string: unmatched '" ++ c.toString ++ "'")
          | b :: outer =>
            if Lexing.closes b c then afterExpression { s with brackets := outer } 0 rest
            else .error ("f-string: closing parenthesis '" ++ c.toString ++ "' does not match opening parenthesis '"
              ++ b.toString ++ "'")
        else afterExpression s 0 rest

/-- Where a literal part ends: at an expression or the end of a nested part, at a brace that stands twice,
or wrongly. -/
inductive LiteralEnd where
  | stops (literal rest : List Char)
  | doubled (literal rest : List Char)
  | wrong (message : String)

/-- Reads a literal part. `nested` says whether it is a format inside of braces, and `taken` is what was
read so far, the latest first. -/
def readLiteral (raw nested : Bool) : Nat → List Char → List Char → LiteralEnd
  | 0, taken, rest => .stops taken.reverse rest
  | _, taken, [] => .stops taken.reverse []
  | n + 1, taken, '\\' :: c :: rest =>
    if raw then readLiteral raw nested n ('\\' :: taken) (c :: rest)
    else if c == 'N' then
      match rest with
      | '\x7b' :: name =>
        let inside := name.takeWhile (· != '\x7d')
        let close := (name.drop inside.length).take 1
        readLiteral raw nested n ((inside ++ close).reverse ++ '\x7b' :: 'N' :: '\\' :: taken)
          (name.drop (inside.length + 1))
      | x :: rest => readLiteral raw nested n (x :: 'N' :: '\\' :: taken) rest
      | [] => readLiteral raw nested n ('N' :: '\\' :: taken) []
    else if c == '\x7b' || c == '\x7d' then brace ('\\' :: taken) c rest
    else readLiteral raw nested n (c :: '\\' :: taken) rest
  | n + 1, taken, c :: rest =>
    if c == '\x7b' || c == '\x7d' then brace taken c rest else readLiteral raw nested n (c :: taken) rest
where
  brace (taken : List Char) (c : Char) (rest : List Char) : LiteralEnd :=
    if !nested && rest.head? == some c then .doubled (taken.reverse ++ [c]) (rest.drop 1)
    else if !nested && c == '\x7d' then .wrong "f-string: single '\x7d' is not allowed"
    else .stops taken.reverse (c :: rest)

def expecting : StringFlaw := .here "f-string: expecting '\x7d'"

def isSpace (c : Char) : Bool := c == ' ' || c == '\t' || c == '\n' || c == '\x0c'

def Formatted.checkExpression (f : Formatted) (cs rest : List Char) : Except StringFlaw Unit :=
  let expression := cs.take (cs.length - rest.length)
  if expression.all isSpace then
    .error (.here (match rest.head? with
      | some '\x7d' | none => "f-string: empty expression not allowed"
      | some c => "f-string: expression required before '" ++ c.toString ++ "'"))
  else
    let before := f.body.take (f.body.length - cs.length)
    match f.rules.judge (String.ofList expression) (f.line + Lexing.lineEnds before) with
    | some c => .error (.inner c)
    | none => .ok ()

/-- The rest behind the equals sign and the conversion of an expression, if there are any. -/
def afterConversion (rest : List Char) : Except StringFlaw (List Char) := do
  let rest ← match rest with
    | '=' :: r =>
      let r := r.dropWhile fun c => isSpace c || c == '\r' || c == '\x0b'
      if r.isEmpty then .error expecting else .ok r
    | r => .ok r
  match rest with
  | '!' :: [] => .error expecting
  | '!' :: c :: r =>
    if c == 's' || c == 'r' || c == 'a' then .ok r
    else .error (.here "f-string: invalid conversion character: expected 's', 'r', or 'a'")
  | r => .ok r

def Formatted.checkLiteral (f : Formatted) (literal : List Char) : Except StringFlaw Unit :=
  match if f.raw then none else escapeFlaw f.rules.namesKnown 0 literal with
  | some m => .error (.here m)
  | none => .ok ()

/-- Looks at literals and expressions in turn, up to the end or, inside of a format, up to a closing brace.
`fuel` bounds the number of parts, and `level` is how deep formats stand in each other. -/
def Formatted.check (f : Formatted) : Nat → Nat → List Char → Except StringFlaw (List Char)
  | 0, _, _ => .ok []
  | fuel + 1, level, cs =>
    match readLiteral f.raw (0 < level) (cs.length + 1) [] cs with
    | .wrong m => .error (.here m)
    | .doubled literal rest => do
      f.checkLiteral literal
      f.check fuel level rest
    | .stops literal rest => do
      f.checkLiteral literal
      match rest with
      | '\x7b' :: inside =>
        if 2 ≤ level then .error (.here "f-string: expressions nested too deeply")
        else
          let rest ← (afterExpression {} 0 inside).mapError .here
          if rest.isEmpty then .error expecting
          else
            f.checkExpression inside rest
            let rest ← afterConversion rest
            let rest ← match rest with
              | ':' :: r => if r.isEmpty then .error expecting else f.check fuel (level + 1) r
              | r => .ok r
            match rest with
            | '\x7d' :: r => f.check fuel level r
            | _ => .error expecting
      | [] => if 0 < level then .error expecting else .ok []
      | r => .ok r

variable (rules : StringRules)

def Quotation.flaw (line : Nat) (q : Quotation) : Option StringFlaw :=
  if q.bytes then
    if q.body.any (127 < ·.toNat) then
      some (.located ⟨"bytes can only contain ASCII literal characters", line⟩)
    else if q.raw then none else (byteFlaw 0 q.body).map .here
  else if q.raw || q.formatted then none else (escapeFlaw rules.namesKnown 0 q.body).map .here

/-- What is wrong with strings that stand side by side. `before` says whether those before are bytes. -/
def flawFrom (before : Option Bool) : List (String × Nat) → Option StringFlaw
  | [] => none
  | (text, line) :: rest =>
    let q := Quotation.of text
    match q.flaw rules line with
    | some f => some f
    | none =>
      if before.any (· != q.bytes) then some (.here "cannot mix bytes and nonbytes literals")
      else
        let f : Formatted := { raw := q.raw, line, body := q.body, rules }
        match if q.formatted then f.check (q.body.length + 1) 0 q.body else .ok [] with
        | .error e => some e
        | .ok _ => flawFrom (some q.bytes) rest

/-- What is wrong with strings side by side, given where the reading has come to, and whether a text inside
of them is what is wrong. -/
def stringsFlaw (reached : Nat) (l : List (String × Nat)) : Option (Complaint × Bool) :=
  (flawFrom rules none l).map fun
    | .located c => (c, false)
    | .here m => (⟨m, reached⟩, false)
    | .inner c => (c, true)

end SecScan.Syntax
