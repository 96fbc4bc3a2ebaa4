import Mathlib.Data.Set.Basic
import SecScan.Ir.Statement
import SecScan.Proofs.Keyed

/-!
The imports of a module, and what their nodes say. An import stands in a module wherever it stands below it
(`StandsIn`), and docstrings are none (`imports_stripDocstringsIn`). The node of an import has the imported names under
`names`, whichever form the import has (`ImportRow`).
-/

namespace SecScan.Syntax

open List

/-- The bodies of a statement that are read into a graph; those of a group handler are not. -/
@[simp] def Stmt.bodies : Stmt → List (List Stmt)
  | .funcDef _ _ _ _ body _ _ _ | .classDef _ _ _ _ body _ | .withBlock _ _ _ body _ => [body]
  | .cond _ _ body orelse | .whileLoop _ _ body orelse | .forLoop _ _ _ _ body orelse _ => [body, orelse]
  | .tryBlock _ false body handlers orelse final =>
    body :: handlers.map (fun (.mk _ _ _ body) => body) ++ [orelse, final]
  | .matchOn _ _ cases => cases.map fun (.mk _ _ body) => body
  | _ => []

/-- The names that a statement imports, in either form of an import. -/
@[simp] def Stmt.imported? : Stmt → Option (List String)
  | .importNames _ names | .importFrom _ _ names _ => some (names.map (·.name))
  | _ => none

/-- The statement stands among some statements or in a body of one of them. -/
inductive StandsIn (s : Stmt) : List Stmt → Prop where
  | here {l : List Stmt} : s ∈ l → StandsIn s l
  | inner {t : Stmt} {body l : List Stmt} : t ∈ l → body ∈ t.bodies → StandsIn s body → StandsIn s l

def Imports (names : List String) (l : List Stmt) : Prop := ∃ s, StandsIn s l ∧ s.imported? = some names

theorem imports_nil (names : List String) : ¬ Imports names [] := by
  rintro ⟨s, hs, -⟩
  cases hs with
  | here h => cases h
  | inner h => cases h

variable {names : List String}

theorem imports_cons {s : Stmt} {l : List Stmt} :
    Imports names (s :: l) ↔ (s.imported? = some names ∨ ∃ body ∈ s.bodies, Imports names body) ∨ Imports names l := by
  constructor
  · rintro ⟨t, ht, hnames⟩
    cases ht with
    | here h =>
      rcases mem_cons.mp h with rfl | h
      · exact .inl (.inl hnames)
      · exact .inr ⟨t, .here h, hnames⟩
    | inner h hbody ht =>
      rcases mem_cons.mp h with rfl | h
      · exact .inl (.inr ⟨_, hbody, t, ht, hnames⟩)
      · exact .inr ⟨t, .inner h hbody ht, hnames⟩
  · rintro ((hnames | ⟨body, hbody, t, ht, hnames⟩) | ⟨t, ht, hnames⟩)
    · exact ⟨s, .here mem_cons_self, hnames⟩
    · exact ⟨t, .inner mem_cons_self hbody ht, hnames⟩
    · refine ⟨t, ?_, hnames⟩
      cases ht with
      | here h => exact .here (.tail _ h)
      | inner h hbody ht => exact .inner (.tail _ h) hbody ht

/-! Docstrings are no imports. -/

theorem imports_dropDocstring (l : List Stmt) :
    Imports names (dropDocstring l) ↔ Imports names l := by
  unfold dropDocstring
  split
  · simp [imports_cons]
  · rfl

mutual

theorem imports_stripDocstrings (s : Stmt) :
    (s.stripDocstrings.imported? = some names ∨ ∃ body ∈ s.stripDocstrings.bodies, Imports names body) ↔
      (s.imported? = some names ∨ ∃ body ∈ s.bodies, Imports names body) := by
  cases s with
  | funcDef l isAsync name args body | classDef l name bases keywords body =>
    simp [Stmt.stripDocstrings, imports_dropDocstring, imports_stripDocstringsIn body]
  | withBlock l isAsync items body => simp [Stmt.stripDocstrings, imports_stripDocstringsIn body]
  | cond l test body orelse | whileLoop l test body orelse | forLoop l isAsync target iter body orelse =>
    simp [Stmt.stripDocstrings, imports_stripDocstringsIn body, imports_stripDocstringsIn orelse]
  | tryBlock l star body handlers orelse final =>
    have hhandlers := @imports_stripDocstringsInHandlers handlers
    cases star with
    | true => simp [Stmt.stripDocstrings]
    | false =>
      simp only [Stmt.stripDocstrings, Stmt.bodies, Stmt.imported?, mem_cons, mem_append, not_mem_nil,
        or_false, or_and_right, exists_or, exists_eq_left, reduceCtorEq, false_or, hhandlers,
        imports_stripDocstringsIn body, imports_stripDocstringsIn orelse, imports_stripDocstringsIn final,
        cons_append]
  | matchOn l subject cases =>
    simp only [Stmt.stripDocstrings, Stmt.bodies, Stmt.imported?, imports_stripDocstringsInCases cases]
  | _ => simp [Stmt.stripDocstrings]

theorem imports_stripDocstringsIn (l : List Stmt) :
    Imports names (stripDocstringsIn l) ↔ Imports names l := by
  cases l with
  | nil => rfl
  | cons s l =>
    rw [stripDocstringsIn, imports_cons, imports_cons, imports_stripDocstrings s, imports_stripDocstringsIn l]

theorem imports_stripDocstringsInHandlers (hs : List Handler) :
    (∃ body ∈ (stripDocstringsInHandlers hs).map (fun (.mk _ _ _ body) => body), Imports names body) ↔
      ∃ body ∈ hs.map (fun (.mk _ _ _ body) => body), Imports names body := by
  cases hs with
  | nil => rfl
  | cons h hs =>
    obtain ⟨l, type, name, body⟩ := h
    simp only [stripDocstringsInHandlers, map_cons, exists_mem_cons_iff, imports_stripDocstringsIn body,
      imports_stripDocstringsInHandlers hs]

theorem imports_stripDocstringsInCases (cs : List MatchCase) :
    (∃ body ∈ (stripDocstringsInCases cs).map (fun (.mk _ _ body) => body), Imports names body) ↔
      ∃ body ∈ cs.map (fun (.mk _ _ body) => body), Imports names body := by
  cases cs with
  | nil => rfl
  | cons c cs =>
    obtain ⟨pattern, guard, body⟩ := c
    simp only [stripDocstringsInCases, map_cons, exists_mem_cons_iff, imports_stripDocstringsIn body,
      imports_stripDocstringsInCases cs]

end

end SecScan.Syntax

namespace SecScan.Ir

open Syntax List

/-! ## Rows -/

/-- What a node of an import says: its kind, its file and what stands under `names`. -/
structure ImportRow where
  kind : String
  file : String
  names : Option Value

def Node.importRow {ρ : Type} (n : Node ρ) : Option ImportRow :=
  if n.kind = "Import" ∨ n.kind = "ImportFrom" then
    some ⟨n.kind, n.span.file, match n.attr? "names" with
      | some (.cell (.data v)) => some v
      | _ => none⟩
  else none

def Draft.rows (d : Draft) : List ImportRow := d.nodes.toList.filterMap Node.importRow

variable {file : String} {x : ImportRow}

def importRow (file : String) (names : List String) : ImportRow := ⟨"Import", file, some (.texts names)⟩

def IsRowOf (file : String) (x : ImportRow) (l : List Stmt) : Prop :=
  ∃ names, Imports names l ∧ x = importRow file names

def IsRowIn (file : String) (x : ImportRow) (s : Stmt) : Prop :=
  ∃ names, (s.imported? = some names ∨ ∃ body ∈ s.bodies, Imports names body) ∧ x = importRow file names

theorem isRowOf_nil (file : String) (x : ImportRow) : ¬ IsRowOf file x [] := by
  rintro ⟨names, h, -⟩
  exact imports_nil names h

theorem isRowOf_cons {s : Stmt} {l : List Stmt} : IsRowOf file x (s :: l) ↔ IsRowIn file x s ∨ IsRowOf file x l := by
  simp only [IsRowOf, IsRowIn, imports_cons, or_and_right, exists_or]

end SecScan.Ir
