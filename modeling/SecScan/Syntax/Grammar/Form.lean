import SecScan.Syntax.Grammar.Literal
import SecScan.Syntax.Grammar.Phrase

/-! Forms of a grammar: ordered choices, with lookahead, over lexemes and rules. A form that is fit ends in
a phrase, or in a complaint. -/
namespace SecScan.Syntax

inductive Item (R : Type) where
  /-- A keyword or a symbol. -/
  | fixed (text : String)
  /-- A word that is a keyword only here. -/
  | soft (word : String)
  /-- Any word that is a keyword somewhere, or the start of one. -/
  | softWord
  | kind (k : Lexeme.Kind)
  | rule (r : R)
  | optional (items : List (Item R))
  | many (item : Item R)
  | several (item : Item R)
  /-- One or more, with something between them. -/
  | separated (mark : String) (item : Item R)
  | oneOf (choices : List (List (Item R)))
  | ahead (item : Item R)
  | notAhead (item : Item R)
  /-- The next lexeme is looked at, whatever it is. -/
  | peek
  /-- From here on no other form is tried. -/
  | cut
  /-- A symbol without which nothing is fit. -/
  | forced (text : String)

structure Scene where
  /-- The line of its first lexeme. -/
  line : Nat
  /-- The line of the last lexeme that was looked at. -/
  reached : Nat
  /-- The brackets that are open behind its last lexeme. -/
  depth : Nat
  strings : StringRules

inductive Verdict where
  | accept (p : Phrase)
  /-- The rule is not fit, and no other form of it is tried. -/
  | refuse
  | complain (c : Complaint)
  | settled (c : Complaint)

abbrev Act := Scene → List Phrase → Verdict

namespace Act

def pass : Act := fun s l => .accept (.join s.line l)

def as (shape : Shape) : Act := fun s l => .accept (.around shape s.line l)

variable (n : Nat)

def part : Act := fun s l => .accept (l[n]?.getD (.join s.line []))

/-- A complaint that is located where the reading has come to. -/
def here (message : String) : Act := fun s _ => .complain ⟨message, s.reached⟩

def partAt (s : Scene) (l : List Phrase) (n : Nat) : Phrase := l[n]?.getD (.join s.line [])

def about (message : Phrase → String) : Act := fun s l =>
  let p := partAt s l n
  .complain ⟨message p, p.line⟩

/-- A complaint with a fixed text that is located at one of the parts. -/
def located (message : String) : Act := about n fun _ => message

/-- The complaint that the block behind a header is not indented. The line of the header is that of one of
the parts. -/
def unindented (header : String) : Act := fun s l =>
  .complain ⟨"expected an indented block after " ++ header ++ " on line " ++ toString (partAt s l n).line, s.reached⟩

/-- The complaint about a part that cannot be a target, if there is one. -/
def targetOf (purpose : Phrase.Purpose) (n : Nat) : Act := fun s l =>
  match (partAt s l n).wrongTarget purpose with
  | none => .refuse
  | some p => .complain ⟨(if purpose == .deletion then "cannot delete " else "cannot assign to ") ++ p.title, p.line⟩

end Act

/-- A form of a rule. A late one is only tried when all is known to be wrong. -/
structure Form (R : Type) where
  items : List (Item R)
  act : Act := .pass
  late : Bool := false

inductive Memory where
  | nothing
  | result
  /-- The result, which starts with a shorter one of the same rule. -/
  | growing

structure Grammar (R : Type) where
  forms : R → List (Form R)
  memory : R → Memory
  sober : R → Bool

end SecScan.Syntax
