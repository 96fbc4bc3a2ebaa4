import SecScan.Store.Archive

/-! Which files a change concerns: those that changed, and those that import them. -/
namespace SecScan.Scan

open Files (Workspace)

def defaultBase : String := "origin/main"

def verifyCommand (base : Value) : List Value := [.text "git", .text "rev-parse", .text "--verify", base]

def differenceCommand (base : Value) : List Value :=
  [.text "git", .text "diff", .text "--name-only", .text (base.display ++ "...HEAD")]

/-- What a run of version control says; that it is missing or fails says nothing. -/
def said : Outcome → Try (Option Value)
  | .missing | .failed => .ok none
  | .timedOut => .error .timedOut
  | .ended output _ _ => .ok (some output)

/-- The source files that differ from a base, and the commands that were run to find out. -/
def changedFiles (root : String) (base : Value) (outcomes : List Outcome) : Try (List String) × List (List Value) :=
  let first := outcomes.headD .missing
  let second := outcomes.tail.headD .missing
  match said first with
  | .error e => (.error e, [verifyCommand base])
  | .ok none => (.ok [], [verifyCommand base])
  | .ok (some _) =>
    (match said second with
      | .error e => .error e
      | .ok none => .ok []
      | .ok (some out) => do
        let lines := Text.lines (← out.asText "splitlines")
        return ((lines.map Text.strip).filter (Text.hasSuffix · ".py")).map (Path.join root),
     [verifyCommand base, differenceCommand base])

variable (w : Workspace)

def moduleFile? (root module : String) : Option String :=
  let way := Text.replace module "." "/"
  let file := Path.join root (way ++ ".py")
  let package := Path.join root (Path.join way "__init__.py")
  if w.has file then some file else if w.has package then some package else none

def importedModules (n : Store.Node) : Try (List Value) :=
  match n.kind with
  | .text "Import" => n.attrs.eachAt "names"
  | .text "ImportFrom" => do
    let m ← n.attrs.field "module"
    return if m.truthy then [m] else []
  | _ => .ok []

def importsOf (root : String) (n : Store.Node) : Try (List (String × String)) := do
  match ← n.place.file? with
  | none => return []
  | some (.text file) =>
    let l ← (← importedModules n).mapM fun m => do
      return (moduleFile? w root (← m.asText "replace")).map (Path.absolute root file, ·)
    return l.filterMap id
  | some _ => throw .wrongKind

def imports (root : String) (g : Store.Graph) : Try (List (String × String)) := do
  return (← g.nodes.mapM (importsOf w root)).flatten

/-- The files whose importers are still to be found, all that were met, and those that the change concerns. -/
structure Search where
  queue : List String
  processed : List String
  impacted : List String

def Search.meet (s : Search) (file : String) : Search :=
  if s.processed.contains file then s else ⟨s.queue ++ [file], s.processed ++ [file], s.impacted ++ [file]⟩

section

variable (l : List (String × String))

def dependents (file : String) : List String := (l.filter (·.2 == file)).map (·.1)

/-- How long a search can go on: a file comes in only once, by an import. -/
def Search.size (s : Search) : Nat := (l.filter (!s.processed.contains ·.1)).length + s.queue.length

theorem Search.size_meet {l : List (String × String)} (s : Search) {p : String × String} (h : p ∈ l) :
    (s.meet p.1).size l ≤ s.size l := by
  unfold meet
  split
  · exact Nat.le_refl _
  · next hnew =>
    have hfilter : l.filter (!(s.processed ++ [p.1]).contains ·.1)
        = (l.filter (!s.processed.contains ·.1)).filter (·.1 != p.1) := by
      simp [Bool.and_comm, bne, Bool.beq_eq_decide_eq]
    have hless : (l.filter (!(s.processed ++ [p.1]).contains ·.1)).length
        < (l.filter (!s.processed.contains ·.1)).length := by
      rw [hfilter, List.length_filter_lt_length_iff_exists]
      exact ⟨p, List.mem_filter.mpr ⟨h, by simpa using hnew⟩, by simp⟩
    simp only [size, List.length_append, List.length_singleton]
    omega

theorem Search.size_foldl {l deps : List (String × String)} (h : deps ⊆ l) (s : Search) :
    ((deps.map (·.1)).foldl meet s).size l ≤ s.size l := by
  induction deps generalizing s with
  | nil => exact Nat.le_refl _
  | cons p deps ih =>
    obtain ⟨hp, hdeps⟩ := List.cons_subset.mp h
    exact Nat.le_trans (ih hdeps _) (s.size_meet hp)

/-- Goes through the queue; what imports the next file comes last, unless it was met before. -/
def spread (s : Search) : List String :=
  match s with
  | ⟨[], _, impacted⟩ => impacted
  | ⟨file :: queue, processed, impacted⟩ => spread ((dependents l file).foldl .meet ⟨queue, processed, impacted⟩)
termination_by s.size l
decreasing_by
  have hsub : l.filter (·.2 == file) ⊆ l := List.filter_sublist.subset
  have hle := Search.size_foldl hsub ⟨queue, processed, impacted⟩
  exact Nat.lt_of_le_of_lt hle (by simp [Search.size])

end

/-- All files that a change concerns. -/
def impacted (root : String) (graph : Option Store.Graph) (changed : List String) : Try (List String) :=
  match graph with
  | none => .ok changed.eraseDups
  | some g => do
    let l ← imports w root g
    return spread l ⟨changed, changed.eraseDups, changed.eraseDups⟩

def impactedFiles (root : String) (changed : List String) : Try (List String) := do
  if changed.isEmpty then return []
  impacted w root ((← Store.loadProject w (some root)).map (·.1)) changed

end SecScan.Scan
