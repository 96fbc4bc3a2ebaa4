import SecScan.Syntax.Grammar.Expression
import SecScan.Syntax.Grammar.Mistake
import SecScan.Syntax.Grammar.Reading
import SecScan.Syntax.Grammar.Statement

/-! Python's grammar as a whole, and why a text is no module. -/
namespace SecScan.Syntax

def formTable : Std.HashMap Rule (List (Form Rule)) :=
  .ofList [expressionForms, argumentForms, targetForms, simpleForms, compoundForms, parameterForms, patternForms,
    expressionMistakes, argumentMistakes, simpleMistakes, blockMistakes, parameterMistakes].flatten

def python : Grammar Rule where
  forms r := formTable.getD r []
  memory r := if remembered.contains r then .result else if recursive.contains r then .growing else .nothing
  sober r := r == "soberExpression"

/-- How deep items of the grammar may stand in each other, given the number of lexemes. -/
def depthFor (n : Nat) : Nat := 200 * (n + 10)

variable (m : Material)

def Material.attempt (start : Rule) (p : Place Rule) : Except Halt (Option Phrase × Place Rule) :=
  m.takeItem python (depthFor m.lexemes.size) (.rule start) p

/-- What a complaint becomes when the rest of the text is taken apart, too. What cannot be taken apart counts
more, and so does a bracket that was opened on an earlier line and never closed. -/
def Material.weigh (open? : Option (Char × Nat)) (h : Halt) : Complaint :=
  if h.lexical then h.complaint
  else match m.stop, open? with
    | some ⟨c, true⟩, _ => c
    | some _, some b =>
      let c := Lexing.neverClosed b
      if b.2 < h.reached then { c with message := m.label ++ c.message } else h.complaint
    | _, _ => h.complaint

/-- The complaint about lexemes that fit no form; the two numbers say how many were looked at without and
with the forms of mistakes. -/
def Material.unfit (plain late : Nat) : Halt :=
  let reached := m.lineAt (late - 1)
  let message (s : String) (line : Nat) : Complaint := ⟨m.label ++ s, line⟩
  match m.lexemes[plain - 1]?.map Lexeme.kind with
  | some .indent => ⟨message "unexpected indent" reached, true, reached⟩
  | some .dedent => ⟨message "unexpected unindent" reached, true, reached⟩
  | _ => ⟨message "invalid syntax" (m.lineAt (plain - 1)), false, reached⟩

/-- What is wrong with a text that should be fit for a rule. `fuel` bounds how deep formatted strings stand
in each other. -/
def complaintIn (namesKnown : Bool) (fuel : Nat) (start : Rule) (label : String) (line : Nat) (text : String) :
    Option Complaint :=
  match fuel with
  | 0 => none
  | fuel + 1 =>
    let (lexing, stop) := lexemesOf text line
    let m : Material :=
      { lexemes := lexing.found.reverse.toArray, stop, label
        strings :=
          { judge := fun s n => complaintIn namesKnown fuel "formattedPart" "f-string: " n ("(" ++ s ++ ")")
            namesKnown } }
    let weigh (h : Halt) : Option Complaint := some (m.weigh lexing.brackets.head? h)
    match m.attempt start {} with
    | .error h => weigh h
    | .ok (some _, _) => none
    | .ok (none, p) =>
      match m.attempt start { seen := p.seen, late := true } with
      | .error h => weigh h
      | .ok (_, q) => weigh (m.unfit p.seen q.seen)

/-- The first thing that is wrong with a text that is no module. If there is nothing else, it is the name of
a character. -/
def complaintOf (source : String) : Complaint :=
  let under (namesKnown : Bool) := complaintIn namesKnown (source.length + 1) "file" "" 1 source
  ((under true).or (under false)).getD ⟨"invalid syntax", 1⟩

def syntaxFaults : List String := ["SyntaxError", "IndentationError", "TabError"]

/-- A complaint about a text under the name of a file. -/
def Complaint.text (c : Complaint) (file : String) : String :=
  c.message ++ " (" ++ Path.name file ++ ", line " ++ toString c.line ++ ")"

def refusal (source file : String) : Fault → String
  | .unreadable r =>
    if syntaxFaults.contains r then (complaintOf source).text file
    else if r == "ValueError" && source.contains '\x00' then "source code string cannot contain null bytes"
    else if r == "RecursionError" then "maximum recursion depth exceeded during ast construction"
    else ""
  | f => f.detail

end SecScan.Syntax
