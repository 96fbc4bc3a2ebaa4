import SecScan.Ir.Graph

/-! The source text that a span covers. Columns count bytes of the line's encoding. -/
namespace SecScan.Ir

/-- Splits a text behind its first `n` bytes; fails inside a character. -/
def cutBytes : Nat → List Char → Option (List Char × List Char)
  | 0, cs => some ([], cs)
  | _ + 1, [] => some ([], [])
  | n + 1, c :: cs =>
    if c.utf8Size ≤ n + 1 then (cutBytes (n + 1 - c.utf8Size) cs).map fun (a, b) => (c :: a, b)
    else none

variable (cs : List Char)

def byteLength : Nat := cs.foldl (fun n c => n + c.utf8Size) 0

/-- A place counted from the end if negative, kept inside the text. -/
def bytePlace (i : Int) : Nat :=
  if i < 0 then byteLength cs - i.natAbs else min i.toNat (byteLength cs)

/-- The bytes from one place to before another, as text. -/
def byteSlice (start : Int) (stop : Option Int) : Try String :=
  let a := bytePlace cs start
  let b := (stop.map (bytePlace cs)).getD (byteLength cs)
  if b ≤ a then .ok ""
  else
    match cutBytes b cs with
    | none => .error .notText
    | some (head, _) =>
      match cutBytes a head with
      | none => .error .notText
      | some (_, part) => .ok (String.ofList part)

def column (c : Int) : Option Int := if c == -1 then none else some c

/-- The text of a span; nothing where the span is unknown or outside of the source. -/
def segment (source : String) (s : Span) : Try String :=
  if s.startLine == -1 || s.startCol == -1 then .ok ""
  else
    let lines := Text.linesKeepingEnds source
    if s.startLine < 1 || lines.length < s.startLine then .ok ""
    else if s.endLine < s.startLine || lines.length < s.endLine then .ok ""
    else
      let first := (lines.getD (s.startLine.toNat - 1) "").toList
      if s.startLine == s.endLine then byteSlice first s.startCol (column s.endCol)
      else do
        let head ← byteSlice first s.startCol none
        let middle := (lines.take (s.endLine.toNat - 1)).drop s.startLine.toNat
        let last ← byteSlice (lines.getD (s.endLine.toNat - 1) "").toList 0 (column s.endCol)
        return head ++ String.join middle ++ last

def lineOf : Value → Try Int
  | .int n => .ok n
  | .bool b => .ok (if b then 1 else 0)
  | _ => .error .wrongKind

/-- The text of a span that a document gives. Bounds are compared before they are used, so that one
which is no whole number is found out only where it would be. -/
def segmentOf (source : String) (startLine startCol endLine endCol : Value) : Try String := do
  let unknown (v : Value) := v.same (.int (-1))
  if unknown startLine || unknown startCol then return ""
  let count := Value.nat (Text.linesKeepingEnds source).length
  if (← startLine.less (.int 1)) || (← startLine.more count) then return ""
  if unknown endLine || (← endLine.less startLine) || (← endLine.more count) then return ""
  let first ← lineOf startLine
  let last ← if endLine.same startLine then pure first else lineOf endLine
  let start := (← startCol.cutPlace).getD 0
  let stop ← endCol.cutPlace
  segment source ⟨"", first, start, last, stop.getD (-1)⟩

end SecScan.Ir
