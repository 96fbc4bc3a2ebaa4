import SecScan.Text.Case

/-! Text patterns with groups. Alternatives are tried from left to right and repetitions of a character
class from long to short, or the other way round where asked; the first way to match counts. -/
namespace SecScan.Text

inductive Pattern where
  | empty
  | one (p : Char → Bool)
  | many (p : Char → Bool) (least : Nat) (most : Option Nat) (greedy : Bool)
  | seq (a b : Pattern)
  | alt (a b : Pattern)
  | group (n : Nat) (a : Pattern)
  | again (n : Nat)
  | wordEdge
  | textHead
  | lineHead
  /-- At the end, or before a line feed that ends the text. -/
  | textTail

structure Matched where
  pos : Nat
  groups : List (Nat × Nat × Nat) := []
  deriving Inhabited

namespace Pattern

def run1 (p : Char → Bool) (s : Array Char) (i : Nat) : Bool := (s[i]?).any p

/-- How many characters from `i` on are in a class, at most `fuel`. -/
def span (p : Char → Bool) (s : Array Char) : Nat → Nat → Nat
  | 0, _ => 0
  | fuel + 1, i => if run1 p s i then span p s fuel (i + 1) + 1 else 0

/-- Tries `least + n`, `least + n - 1`, … `least`. -/
def longestFirst (k : Nat → Option α) (least : Nat) : Nat → Option α
  | 0 => k least
  | n + 1 => k (least + n + 1) <|> longestFirst k least n

/-- Tries `least`, `least + 1`, … `least + n`. -/
def shortestFirst (k : Nat → Option α) (least : Nat) : Nat → Option α
  | 0 => k least
  | n + 1 => k least <|> shortestFirst k (least + 1) n

variable (s : Array Char)

def isEdge (i : Nat) : Bool :=
  let before := 0 < i && run1 isWord s (i - 1)
  before != run1 isWord s i

def piece (i j : Nat) : List Char := (s.extract i j).toList

def run : Pattern → Matched → (Matched → Option Matched) → Option Matched
  | .empty, m, k => k m
  | .one p, m, k => if run1 p s m.pos then k { m with pos := m.pos + 1 } else none
  | .many p least most greedy, m, k =>
    let n := span p s (most.getD (s.size - m.pos)) m.pos
    if n < least then none
    else
      let go (j : Nat) := k { m with pos := m.pos + j }
      if greedy then longestFirst go least (n - least) else shortestFirst go least (n - least)
  | .seq a b, m, k => run a m fun m => run b m k
  | .alt a b, m, k => run a m k <|> run b m k
  | .group n a, m, k => run a m fun m' => k { m' with groups := (n, m.pos, m'.pos) :: m'.groups }
  | .again n, m, k =>
    match m.groups.lookup n with
    | some (i, j) =>
      if piece s i j == piece s m.pos (m.pos + (j - i)) then k { m with pos := m.pos + (j - i) }
      else none
    | none => none
  | .wordEdge, m, k => if isEdge s m.pos then k m else none
  | .textHead, m, k => if m.pos == 0 then k m else none
  | .lineHead, m, k => if m.pos == 0 || run1 (· == '\n') s (m.pos - 1) then k m else none
  | .textTail, m, k =>
    if m.pos == s.size || (m.pos + 1 == s.size && run1 (· == '\n') s m.pos) then k m else none

variable (p : Pattern)

def matchAt (s : Array Char) (i : Nat) : Option Matched := p.run s { pos := i } some

/-- The first match that begins at `i` or later: its start, and the match. -/
def searchFrom (p : Pattern) (s : Array Char) : Nat → Nat → Option (Nat × Matched)
  | 0, i => (p.matchAt s i).map (i, ·)
  | fuel + 1, i =>
    match p.matchAt s i with
    | some m => some (i, m)
    | none => searchFrom p s fuel (i + 1)

variable (s : String)

def search : Option (Nat × Matched) :=
  let a := s.toList.toArray
  p.searchFrom a a.size 0

def occurs : Bool := (p.search s).isSome

def allFrom (p : Pattern) (s : Array Char) : Nat → Nat → List (Nat × Matched)
  | 0, _ => []
  | fuel + 1, i =>
    if s.size < i then []
    else
      match p.searchFrom s (s.size - i) i with
      | some (j, m) => (j, m) :: allFrom p s fuel (if m.pos == j then j + 1 else m.pos)
      | none => []

def findAll : List (Nat × Matched) :=
  let a := s.toList.toArray
  p.allFrom a (a.size + 1) 0

def removeAll : String :=
  let a := s.toList.toArray
  let (out, last) := (p.findAll s).foldl
    (fun (out, last) (j, m) => (out ++ piece a last j, m.pos)) (([] : List Char), 0)
  String.ofList (out ++ piece a last a.size)

def groupText? (m : Matched) (n : Nat) : Option String :=
  (m.groups.lookup n).map fun (i, j) => String.ofList (piece s.toList.toArray i j)

end Pattern

def Matched.text (s : String) (start : Nat) (m : Matched) : String :=
  String.ofList (Pattern.piece s.toList.toArray start m.pos)

namespace Pattern

def seqs : List Pattern → Pattern
  | [] => .empty
  | [p] => p
  | p :: ps => .seq p (seqs ps)

def alts : List Pattern → Pattern
  | [] => .one fun _ => false
  | [p] => p
  | p :: ps => .alt p (alts ps)

variable (s : String)

def lit : Pattern := seqs (s.toList.map fun c => .one (· == c))

def litAnyCase : Pattern := seqs (s.toList.map fun c => .one fun d => fold d == fold c)

variable (p : Char → Bool)

def star : Pattern := .many p 0 none true
def plus : Pattern := .many p 1 none true
def lazyStar : Pattern := .many p 0 none false
def exactly (n : Nat) (p : Char → Bool) : Pattern := .many p n (some n) true
def opt (p : Pattern) : Pattern := .alt p .empty

variable (c : Char)

def anyChar (_ : Char) : Bool := true
def notNewline : Bool := c != '\n'
def among : Bool := s.toList.contains c
def noneOf : Bool := !s.toList.contains c
def between (a b c : Char) : Bool := a ≤ c && c ≤ b
def asciiLetter : Bool := between 'a' 'z' c || between 'A' 'Z' c
def asciiDigit : Bool := between '0' '9' c
def asciiAlphanumeric : Bool := asciiLetter c || asciiDigit c
def anyCase : Bool := p (fold c)

def word : Pattern := seqs [.wordEdge, litAnyCase s, .wordEdge]

end Pattern

end SecScan.Text
