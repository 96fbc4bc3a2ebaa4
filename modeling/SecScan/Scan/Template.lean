import SecScan.Data

/-! Expressions and blocks of page templates. -/
namespace SecScan.Scan

open Text Text.Pattern

structure TemplateNode where
  raw : String
  expression : String
  line : Nat
  startCol : Nat
  endCol : Nat
  kind : String
  isSafe : Bool := false
  filters : List String := []

namespace TemplateNode

variable (n : TemplateNode)

def value : Value :=
  .obj [("raw", .text n.raw), ("expression", .text n.expression), ("line", .nat n.line),
    ("start_col", .nat n.startCol), ("end_col", .nat n.endCol), ("node_type", .text n.kind),
    ("is_safe", .bool n.isSafe), ("filters", .texts n.filters)]

def enclosed (before after : String) : Pattern :=
  seqs [lit before, star isBlank, .group 1 (lazyStar notNewline), star isBlank, lit after]

def variablePattern : Pattern := enclosed "\x7b\x7b" "\x7d\x7d"

def blockPattern : Pattern := enclosed "\x7b%" "%\x7d"

def found (kind line : String) (n : Nat) (i : Nat) (m : Matched) : TemplateNode :=
  { raw := m.text line i, expression := Text.strip ((groupText? line m 1).getD ""), line := n,
    startCol := i, endCol := m.pos, kind }

/-- What stands behind bars are filters, two of which declare the result safe. -/
def withFilters : TemplateNode :=
  match Text.split n.expression "|" with
  | e :: f :: fs =>
    let filters := (f :: fs).map Text.strip
    { n with
      expression := Text.strip e, filters
      isSafe := filters.contains "safe" || filters.contains "mark_safe" }
  | _ => n

def ofLine (line : String) (n : Nat) : List TemplateNode :=
  ((variablePattern.findAll line).map fun (i, m) => (found "variable" line n i m).withFilters)
    ++ (blockPattern.findAll line).map fun (i, m) => found "block" line n i m

def ofContent (content : String) : List TemplateNode :=
  (Text.split content "\n").zipIdx.flatMap fun (line, i) => ofLine line (i + 1)

def dangerousWords : List String := ["__class__", "__mro__", "__subclasses__", "config.items", "self.__dict__"]

def isInjectable : Bool := n.kind == "variable" && dangerousWords.any (Text.holds n.expression)

end TemplateNode

end SecScan.Scan
