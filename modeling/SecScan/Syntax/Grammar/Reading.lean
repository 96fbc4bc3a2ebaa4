import Std.Data.HashMap
import SecScan.Syntax.Grammar.Form

/-! Reading lexemes by a grammar. -/
namespace SecScan.Syntax

/-- What is read: lexemes, why there are no more of them, what complaints start with, and how
strings are looked at. -/
structure Material where
  lexemes : Array Lexeme
  stop : Option Breakoff
  label : String
  strings : StringRules

structure Halt where
  complaint : Complaint
  lexical : Bool := false
  reached : Nat := 0

/-- A place in a reading: the next lexeme, how many have been looked at, whether late forms are tried, and
what is known of rules at other places. -/
structure Place (R : Type) [BEq R] [Hashable R] where
  here : Nat := 0
  seen : Nat := 0
  late : Bool := false
  known : Std.HashMap (R × Nat) (Option Phrase × Nat) := {}

abbrev Step (R : Type) [BEq R] [Hashable R] := Place R → Except Halt (Option Phrase × Place R)

namespace Material

variable {R : Type} [BEq R] [Hashable R]

variable (m : Material)

def lineAt (n : Nat) : Nat := (m.lexemes[n]?.map (·.line)).getD 0

variable (p : Place R)

def reached : Nat := m.lineAt (p.seen - 1)

def halt (c : Complaint) : Halt := ⟨{ c with message := m.label ++ c.message }, false, m.reached p⟩

def look : Except Halt (Option Lexeme × Place R) :=
  match m.lexemes[p.here]?, m.stop with
  | some x, _ => .ok (some x, { p with seen := max p.seen (p.here + 1) })
  | none, some b =>
    let message := if b.prevails then b.complaint.message else m.label ++ b.complaint.message
    .error ⟨{ b.complaint with message }, true, 0⟩
  | none, none => .ok (none, p)

def phraseOf (x : Lexeme) : Phrase :=
  let shape := match x.kind with
    | .word => .name
    | .number | .string => .literal
    | _ => .mark
  { shape, line := x.line, text := x.text }

def take (fits : Lexeme → Bool) : Step R := fun p => do
  match ← m.look p with
  | (some x, p) =>
    if fits x then return (some (phraseOf x), { p with here := p.here + 1 }) else return (none, p)
  | (none, p) => return (none, p)

def isFixed (text : String) (x : Lexeme) : Bool := (x.kind == .keyword || x.kind == .symbol) && x.text == text

def softWords : List String := ["_", "case", "match"]

def takeForced (text : String) : Step R := fun p => do
  match ← m.look p with
  | (some x, p') =>
    if isFixed text x then m.take (isFixed text) p
    else .error (m.halt p' ⟨"expected '" ++ text ++ "'", x.line⟩)
  | (none, p) => return (none, p)

/-- What has become of some items: they were read, or they were not, perhaps for good. -/
inductive Taken where
  | all (l : List Phrase)
  | failed (final : Bool)

def takeItems (f : Item R → Step R) (isCut : Bool) (found : List Phrase) :
    List (Item R) → Place R → Except Halt (Taken × Place R)
  | [], p => .ok (.all found.reverse, p)
  | .cut :: rest, p => takeItems f true found rest p
  | .ahead i :: rest, p => do
    match ← f i p with
    | (some _, p') => takeItems f isCut found rest { p' with here := p.here }
    | (none, p') => return (.failed isCut, p')
  | .notAhead i :: rest, p => do
    match ← f i p with
    | (some _, p') => return (.failed isCut, p')
    | (none, p') => takeItems f isCut found rest { p' with here := p.here }
  | i :: rest, p => do
    match ← f i p with
    | (some x, p') => takeItems f isCut (x :: found) rest p'
    | (none, p') => return (.failed isCut, p')

/-- Items again and again, `n` times at most. -/
def takeMany (step : Step R) : Nat → List Phrase → Place R → Except Halt (List Phrase × Place R)
  | 0, found, p => .ok (found.reverse, p)
  | n + 1, found, p => do
    match ← step p with
    | (some x, p') =>
      if p'.here ≤ p.here then return (found.reverse, { p' with here := p.here })
      else takeMany step n (x :: found) p'
    | (none, p') => return (found.reverse, { p' with here := p.here })

variable (m : Material)

def takeChoice (f : Item R → Step R) : List (List (Item R)) → Step R
  | [], p => .ok (none, p)
  | items :: rest, p => do
    match ← takeItems f false [] items p with
    | (.all l, p') => return (some (.join (m.lineAt p.here) l), p')
    | (.failed final, p') =>
      if final then return (none, p') else takeChoice f rest { p' with here := p.here }

def takeForms (f : Item R → Step R) : List (Form R) → Step R
  | [], p => .ok (none, p)
  | form :: rest, p =>
    if form.late && !p.late then takeForms f rest p
    else do
      match ← takeItems f false [] form.items p with
      | (.failed final, p') =>
        if final then return (none, p') else takeForms f rest { p' with here := p.here }
      | (.all l, p') =>
        let scene : Scene :=
          { line := m.lineAt p.here, reached := m.reached p', strings := m.strings
            depth := (m.lexemes[p'.here - 1]?.map (·.depth)).getD 0 }
        match form.act scene l with
        | .accept x => return (some x, p')
        | .refuse => return (none, p')
        | .complain c => .error (m.halt p' c)
        | .settled c => .error ⟨c, false, m.reached p'⟩

/-- Reads a rule that starts with itself: at first the rule does not fit, and then as long as it gets
longer the result so far stands for it. -/
def grow (body : Step R) (r : R) (start : Nat) :
    Nat → Option Phrase → Nat → Place R → Except Halt (Option Phrase × Place R)
  | 0, best, stop, p => .ok (best, { p with here := stop })
  | n + 1, best, stop, p => do
    let p := { p with known := p.known.insert (r, start) (best, stop) }
    match ← body { p with here := start } with
    | (some x, p') =>
      if stop < p'.here then grow body r start n (some x) p'.here p'
      else return (best, { p' with here := stop })
    | (none, p') => return (best, { p' with here := stop })

def takeRule (g : Grammar R) (f : Item R → Step R) (r : R) : Step R := fun p =>
  let body : Step R := fun p => takeForms m f (g.forms r) p
  match g.memory r, p.known[(r, p.here)]? with
  | .nothing, _ =>
    if g.sober r then do
      let (x, p') ← body { p with late := false }
      return (x, { p' with late := p.late })
    else body p
  | _, some (x, n) => .ok (x, { p with here := n })
  | .result, none => do
    let (x, p') ← body p
    return (x, { p' with known := p'.known.insert (r, p.here) (x, p'.here) })
  | .growing, none => grow body r p.here (m.lexemes.size + 1) none p.here p

/-- Reads an item. `fuel` bounds how deep items stand in each other. -/
def takeItem (g : Grammar R) (fuel : Nat) (i : Item R) : Step R :=
  match fuel with
  | 0 => fun p => .ok (none, p)
  | fuel + 1 =>
    let f := takeItem g fuel
    let times := m.lexemes.size + 1
    match i with
    | .fixed text => m.take (isFixed text)
    | .soft word => m.take fun x => x.kind == .word && x.text == word
    | .softWord => m.take fun x => x.kind == .word && softWords.any (Text.hasPrefix · x.text)
    | .kind k => m.take (·.kind == k)
    | .forced text => m.takeForced text
    | .peek => fun p => do return (some (.join 0 []), (← m.look p).2)
    | .rule r => takeRule m g f r
    | .oneOf choices => takeChoice m f choices
    | .optional items => fun p => do
      match ← takeItems f false [] items p with
      | (.all l, p') => return (some (.join (m.lineAt p.here) l), p')
      | (.failed _, p') => return (some (.join 0 []), { p' with here := p.here })
    | .many i => fun p => do
      let (l, p') ← takeMany (f i) times [] p
      return (some (.around .group (m.lineAt p.here) l), p')
    | .several i => fun p => do
      match ← takeMany (f i) times [] p with
      | ([], p') => return (none, p')
      | (l, p') => return (some (.around .group (m.lineAt p.here) l), p')
    | .separated mark i => fun p => do
      match ← f i p with
      | (none, p') => return (none, p')
      | (some x, p') =>
        let (l, p') ← takeMany (takeChoice m f [[.fixed mark, i]]) times [x] p'
        return (some (.around .group (m.lineAt p.here) l), p')
    | .ahead _ | .notAhead _ | .cut => fun p => .ok (none, p)

end Material

end SecScan.Syntax
