import SecScan.Data

/-! The words, numbers, strings and symbols of a source text. -/
namespace SecScan.Syntax

open Text

structure Complaint where
  message : String
  line : Nat
  deriving Repr, DecidableEq

inductive Lexeme.Kind where
  | word | keyword | number | string | symbol | lineEnd | indent | dedent | textEnd
  deriving DecidableEq, Repr

structure Lexeme where
  kind : Lexeme.Kind
  text : String
  line : Nat
  /-- How many brackets are open behind it. -/
  depth : Nat := 0
  deriving Repr

/-- The width of the blanks at the start of a line, with tabs as stops and with tabs as single blanks. -/
structure Indent where
  stops : Nat := 0
  blanks : Nat := 0
  deriving DecidableEq, Repr

/-- A text that is being taken apart: the line, the brackets that are open and the indents around, both
the innermost first, and the lexemes so far, the latest first. -/
structure Lexing where
  line : Nat := 1
  /-- Whether nothing but blanks has come on the line. -/
  fresh : Bool := true
  indent : Indent := {}
  /-- The indent before a line was continued. -/
  pinned : Option Nat := none
  brackets : List (Char × Nat) := []
  indents : List Indent := [{}]
  found : List Lexeme := []

structure Breakoff where
  complaint : Complaint
  /-- Whether this counts more than what is wrong before it. -/
  prevails : Bool := true

namespace Lexing

variable (s : Lexing)

def put (kind : Lexeme.Kind) (text : List Char) : Lexing :=
  { s with found := ⟨kind, String.ofList text, s.line, s.brackets.length⟩ :: s.found, fresh := false }

def endLine : Lexing :=
  let s := if s.brackets.isEmpty && !s.fresh then s.put .lineEnd [] else s
  { s with line := s.line + 1, indent := {}, pinned := none, fresh := s.brackets.isEmpty }

variable (c : Char)

def blank : Lexing :=
  let i := s.indent
  { s with indent :=
      if c == '\x0c' then {} else ⟨if c == '\t' then (i.stops / 8 + 1) * 8 else i.stops + 1, i.blanks + 1⟩ }

def maxIndents : Nat := 100

/-- The indents around a line. Whatever a tab stands for, a line has to be on the same side of the lines
around it. -/
def settle : Except Breakoff Lexing :=
  let flaw (m : String) : Except Breakoff Lexing := .error ⟨⟨m, s.line⟩, false⟩
  let mixed := flaw "inconsistent use of tabs and spaces in indentation"
  let indent : Indent := (s.pinned.map fun n => ⟨n, n⟩).getD s.indent
  let here := s.indents.headD {}
  if here.stops < indent.stops then
    if maxIndents ≤ s.indents.length then flaw "too many levels of indentation"
    else if here.blanks < indent.blanks then .ok { s.put .indent [] with indents := indent :: s.indents }
    else mixed
  else
    let left := s.indents.takeWhile (indent.stops < ·.stops)
    let indents := s.indents.drop left.length
    let here := indents.headD {}
    if here.stops != indent.stops then flaw "unindent does not match any outer indentation level"
    else if here.blanks != indent.blanks then mixed
    else .ok { left.foldl (fun s _ => s.put .dedent []) s with indents, fresh := false }

def closes (opening closing : Char) : Bool := [('(', ')'), ('[', ']'), ('\x7b', '\x7d')].contains (opening, closing)

def closeBracket : Except Complaint Lexing :=
  match s.brackets with
  | [] => .error ⟨"unmatched '" ++ c.toString ++ "'", s.line⟩
  | (o, line) :: rest =>
    if closes o c then .ok ({ s with brackets := rest }.put .symbol [c])
    else
      let place := if line == s.line then "" else " on line " ++ toString line
      .error ⟨"closing parenthesis '" ++ c.toString ++ "' does not match opening parenthesis '" ++ o.toString
        ++ "'" ++ place, s.line⟩

def maxBrackets : Nat := 200

def openBracket : Except Complaint Lexing :=
  if maxBrackets ≤ s.brackets.length then .error ⟨"too many nested parentheses", s.line⟩
  else .ok ({ s with brackets := (c, s.line) :: s.brackets }.put .symbol [c])

/-- The rest behind a string on one line; where the string has no end, what stands before the end of its
last line. -/
def shortString (q : Char) : List Char → Except (List Char) (List Char)
  | [] => .error []
  | '\\' :: _ :: r => shortString q r
  | c :: r => if c == q then .ok r else if c == '\n' then .error (c :: r) else shortString q r

/-- The same for a string with threefold quotes. -/
def longString (q : Char) : List Char → Except (List Char) (List Char)
  | [] => .error []
  | '\\' :: _ :: r => longString q r
  | c :: r => if c == q && [q, q].isPrefixOf r then .ok (r.drop 2) else longString q r

variable (cs : List Char)

def lineEnds : Nat := cs.countP (· == '\n')

def readString (marks : List Char) (q : Char) (rest : List Char) : Except Complaint (List Char × Lexing) :=
  let isLong := [q, q].isPrefixOf rest
  let unended (r : List Char) (name : String) : Complaint :=
    let read := rest.take (rest.length - r.length)
    let n := s.line + lineEnds read - if r.isEmpty && read.getLast? == some '\n' then 1 else 0
    ⟨"unterminated " ++ name ++ "string literal (detected at line " ++ toString n ++ ")", s.line⟩
  match if isLong then longString q (rest.drop 2) else shortString q rest with
  | .ok r =>
    let body := rest.take (rest.length - r.length)
    .ok (r, { s.put .string (marks ++ q :: body) with line := s.line + lineEnds body })
  | .error r => .error (unended r (if isLong then "triple-quoted " else ""))

def stringMarks : List String := ["r", "u", "b", "f", "br", "rb", "fr", "rf"]

def symbols : List String := words
  "**= //= >>= <<= ... -> := += -= *= /= %= &= |= ^= @= == != <= >= <> ** // << >>"

def keywords : List String := words
  "False None True and as assert async await break class continue def del elif else except finally for from global
   if import in is lambda nonlocal not or pass raise return try while with yield"

/-! Numbers -/

def digitsEnd (isDigit : Char → Bool) : List Char → Option (List Char)
  | '_' :: c :: r => if isDigit c then digitsEnd isDigit r else none
  | '_' :: [] => none
  | c :: r => if isDigit c then digitsEnd isDigit r else some (c :: r)
  | [] => some []

def goesOn : Bool := isWord c || 127 < c.toNat

variable (rest : List Char)

def isJoined : Bool :=
  ["if", "in", "is"].any (·.toList.isPrefixOf rest)
    || ["and", "else", "for", "not", "or"].any fun w => w.toList.isPrefixOf rest && !(rest[w.length]?).any goesOn

def numberEnd (kind : String) (rest : List Char) : Except String (List Char) :=
  if isJoined rest || !rest.head?.any (fun c => c.toNat < 128 && isWord c) then .ok rest
  else .error ("invalid " ++ kind ++ " literal")

def radixEnd (kind : String) (isDigit : Char → Bool) (rest : List Char) : Except String (List Char) :=
  let body := if rest.head? == some '_' then rest.drop 1 else rest
  let other (cs : List Char) : Option String := match cs.head? with
    | some c => if c.isDigit then some ("invalid digit '" ++ c.toString ++ "' in " ++ kind ++ " literal") else none
    | none => none
  if !body.head?.any isDigit then .error ((other body).getD ("invalid " ++ kind ++ " literal"))
  else match digitsEnd isDigit body with
    | none => .error ("invalid " ++ kind ++ " literal")
    | some r => match other r with
      | some m => .error m
      | none => numberEnd kind r

def exponentEnd : Except String (List Char) :=
  let wrong := "invalid decimal literal"
  let rest' := rest.drop 1
  let digits := if rest'.head?.any (fun c => c == '+' || c == '-') then rest'.drop 1 else rest'
  if digits.head?.any Char.isDigit then ((digitsEnd Char.isDigit digits).map .ok).getD (.error wrong)
  else if digits.length < rest'.length then .error wrong
  else .ok rest

def isOneOf (a b : Char) (cs : List Char) : Bool := cs.head?.any fun c => c == a || c == b

def afterNumber : Except String (List Char) :=
  let wrong := "invalid decimal literal"
  match cs with
  | '0' :: x :: rest =>
    if x == 'x' || x == 'X' then
      radixEnd "hexadecimal" (fun c => c.isDigit || "abcdefABCDEF".contains c) rest
    else if x == 'o' || x == 'O' then radixEnd "octal" (fun c => c.isDigit && c < '8') rest
    else if x == 'b' || x == 'B' then radixEnd "binary" (fun c => c == '0' || c == '1') rest
    else plain wrong
  | _ => plain wrong
where
  plain (wrong : String) : Except String (List Char) := do
    let some r := digitsEnd Char.isDigit cs | .error wrong
    let whole := cs.take (cs.length - r.length)
    let r ← if r.head? == some '.' then
        let r := r.drop 1
        if r.head?.any Char.isDigit then ((digitsEnd Char.isDigit r).map .ok).getD (.error wrong) else .ok r
      else .ok r
    let r ← if isOneOf 'e' 'E' r then exponentEnd r else .ok r
    let read := cs.length - r.length
    if isOneOf 'j' 'J' r then numberEnd "imaginary" (r.drop 1)
    else if read == whole.length && whole.head? == some '0' && whole.any (fun c => c != '0' && c != '_') then
      .error ("leading zeros in decimal integer literals are not permitted; " ++ "use an 0o prefix for octal integers")
    else numberEnd "decimal" r

def strange : Option String :=
  let digits := Nat.toDigits 16 c.toNat
  let code := "U+" ++ (String.ofList (List.replicate (4 - digits.length) '0' ++ digits)).toUpper
  if !Text.isPrintable c then some ("invalid non-printable character " ++ code)
  else if 127 < c.toNat then some ("invalid character '" ++ c.toString ++ "' (" ++ code ++ ")")
  else none

def symbolAt : List Char := ((symbols.map String.toList).find? (·.isPrefixOf cs)).getD (cs.take 1)

def readQuoted (marks : List Char) (q : Char) (rest : List Char) :
    Except Breakoff (List Char × Lexing) := (s.readString marks q rest).mapError (⟨·, true⟩)

def putWord (word : List Char) : Lexing :=
  s.put (if keywords.contains (String.ofList word) then .keyword else .word) word

/-- The next lexeme, or the blanks and the comment before it. -/
def next : Except Breakoff (List Char × Lexing) :=
  let flaw (m : String) : Breakoff := ⟨⟨m, s.line⟩, true⟩
  if c == '"' || c == '\'' then s.readQuoted [] c rest
  else if c.isDigit || (c == '.' && rest.head?.any Char.isDigit) then do
    let r ← (afterNumber (c :: rest)).mapError flaw
    return (r, s.put .number ((c :: rest).take (rest.length + 1 - r.length)))
  else if Text.isWord c then
    let word := c :: rest.takeWhile Text.isWord
    let r := rest.drop (word.length - 1)
    match r with
    | q :: r' =>
      if (q == '"' || q == '\'') && stringMarks.contains (lower (String.ofList word)) then s.readQuoted word q r'
      else .ok (r, s.putWord word)
    | [] => .ok ([], s.putWord word)
  else if c == '(' || c == '[' || c == '\x7b' then do
    return (rest, ← (s.openBracket c).mapError (⟨·, true⟩))
  else if c == ')' || c == ']' || c == '\x7d' then do
    return (rest, ← (s.closeBracket c).mapError (⟨·, true⟩))
  else match strange c with
    | some m => .error (flaw m)
    | none =>
      let symbol := symbolAt (c :: rest)
      .ok (rest.drop (symbol.length - 1), s.put .symbol symbol)

def neverClosed (c : Char × Nat) : Complaint := ⟨"'" ++ c.1.toString ++ "' was never closed", c.2⟩

def unfinished : Breakoff :=
  match s.brackets.head? with
  | some c => ⟨neverClosed c, false⟩
  | none => ⟨⟨"unexpected EOF while parsing", s.line⟩, false⟩

def finish : Lexing × Option Breakoff :=
  if !s.brackets.isEmpty then (s, some s.unfinished)
  else
    let s := { s with line := s.line - 1 }
    let s := (s.indents.drop 1).foldl (fun s _ => s.put .dedent []) s
    (s.put .textEnd [], none)

def read : Nat → List Char → Lexing → Lexing × Option Breakoff
  | 0, _, s => (s, none)
  | _, [], s => s.finish
  | n + 1, c :: rest, s =>
    if c == '\n' then read n rest s.endLine
    else if c == '#' then read n (rest.dropWhile (· != '\n')) s
    else if c == ' ' || c == '\t' || c == '\x0c' then read n rest (s.blank c)
    else if c == '\\' then
      match rest with
      | '\n' :: [] => (s, some s.unfinished)
      | '\n' :: rest =>
        let pinned := if s.fresh && s.pinned.isNone && s.indent.stops != 0 then some s.indent.stops else s.pinned
        read n rest { s with line := s.line + 1, pinned }
      | _ => (s, some ⟨⟨"unexpected character after line continuation character", s.line⟩, false⟩)
    else match if s.fresh then s.settle else .ok s with
      | .error e => (s, some e)
      | .ok s => match s.next c rest with
        | .error e => (s, some e)
        | .ok (r, s) => read n r s

end Lexing

variable (source : String)

/-- A text with one kind of line end, and with one behind its last line. -/
def evenLines : List Char :=
  let cs := (replace (replace source "\r\n" "\n") "\r" "\n").toList
  if cs.getLast? == some '\n' then cs else cs ++ ['\n']

def lexemesOf (line : Nat := 1) : Lexing × Option Breakoff :=
  let cs := evenLines source
  Lexing.read (cs.length + 1) cs { line }

/-! Blanks out comments, keeping every other token in its place. -/

structure Token where
  kind : String
  text : String
  startLine : Nat
  startCol : Nat
  endLine : Nat
  endCol : Nat
  deriving Inhabited

/-- The text of the tokens from a place on, with blanks in the gaps and for the comments. -/
def blankComments : (line col : Nat) → List Token → List String
  | _, _, [] => []
  | line, col, t :: ts =>
    if t.kind == "ENCODING" then blankComments line col ts
    else
      let col := if line < t.startLine then 0 else col
      let text := if t.kind == "COMMENT" then repeated t.text.length " " else t.text
      repeated (t.startCol - col) " " :: text :: blankComments t.endLine t.endCol ts

/-- A source without its comments; one that cannot be taken apart stays as it is. -/
def stripComments (tokens : Option (List Token)) : String :=
  match tokens with
  | some ts => String.join (blankComments 1 0 ts)
  | none => source

end SecScan.Syntax
