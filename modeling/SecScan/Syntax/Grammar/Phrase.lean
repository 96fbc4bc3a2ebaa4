import SecScan.Syntax.Lexeme

/-! Phrases of a text: what was read, as far as a complaint may have to tell of it. -/
namespace SecScan.Syntax

inductive Shape where
  /-- A lexeme that is no phrase of its own. -/
  | mark
  /-- Some phrases that belong together. -/
  | group
  | name | attribute | subscript | starred | list | tuple | lambda | call | operation | generator | yielding
  | awaiting | listComprehension | setComprehension | dictComprehension | dict | set | formatted | constant
  | literal | ellipsis | comparison | conditional | named
  /-- What is compared with `in`. -/
  | member
  /-- An argument with its name. -/
  | keyword
  /-- A mapping whose items are arguments. -/
  | unpacked
  deriving DecidableEq, Repr

structure Phrase where
  shape : Shape
  line : Nat
  text : String := ""
  parts : List Phrase := []

namespace Phrase

def opened (p : Phrase) : List Phrase :=
  match p.shape with
  | .mark => []
  | .group => p.parts
  | _ => [p]

def join (line : Nat) : List Phrase → Phrase
  | [p] => p
  | l => { shape := .group, line, parts := l.flatMap opened }

def around (shape : Shape) (line : Nat) (l : List Phrase) : Phrase := { shape, line, parts := l.flatMap opened }

def title (p : Phrase) : String :=
  match p.shape with
  | .attribute => "attribute"
  | .subscript => "subscript"
  | .starred => "starred"
  | .name => "name"
  | .list => "list"
  | .tuple => "tuple"
  | .lambda => "lambda"
  | .call => "function call"
  | .operation => "expression"
  | .generator => "generator expression"
  | .yielding => "yield expression"
  | .awaiting => "await expression"
  | .listComprehension => "list comprehension"
  | .setComprehension => "set comprehension"
  | .dictComprehension => "dict comprehension"
  | .dict => "dict literal"
  | .set => "set display"
  | .formatted => "f-string expression"
  | .constant => p.text
  | .ellipsis => "ellipsis"
  | .comparison => "comparison"
  | .conditional => "conditional expression"
  | .named => "named expression"
  | _ => "literal"

inductive Purpose where
  | assignment | deletion | loop
  deriving DecidableEq

/-- The first part of a phrase that cannot be a target. Only lists and tuples are looked into, and in the
head of a loop what stands before its `in`. -/
def wrongTarget (purpose : Purpose) : Phrase → Option Phrase
  | ⟨.list, _, _, parts⟩ | ⟨.tuple, _, _, parts⟩ => firstWrong purpose parts
  | ⟨.starred, line, text, parts⟩ =>
    if purpose == .deletion then some ⟨.starred, line, text, parts⟩ else firstWrong purpose parts
  | ⟨.comparison, line, text, parts⟩ =>
    if purpose == .loop then
      match parts with
      | left :: second :: _ => if second.shape == .member then wrongTarget purpose left else none
      | _ => none
    else some ⟨.comparison, line, text, parts⟩
  | ⟨.name, _, _, _⟩ | ⟨.subscript, _, _, _⟩ | ⟨.attribute, _, _, _⟩ => none
  | p => some p
where
  firstWrong (purpose : Purpose) : List Phrase → Option Phrase
    | [] => none
    | p :: rest => match wrongTarget purpose p with
      | some q => some q
      | none => firstWrong purpose rest

end Phrase

end SecScan.Syntax
