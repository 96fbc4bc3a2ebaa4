import SecScan.Store.Manifest

/-! Keeping the program graphs of a project from one run to the next. -/
namespace SecScan.Store

open SecScan.Path
open Files (Workspace)

def formatVersion : Value := .text "1.0"

variable (w : Workspace)

/-- The root a file is stored under: the given one, the current directory, or for a file outside of
it the directory of the file. -/
def rootFor (file : String) (root : Option String) : String :=
  match root with
  | some r => w.absolute (if r.isEmpty then w.cwd else r)
  | none =>
    if isAbsolute file then
      let way := relative w.cwd file
      if Text.hasPrefix way "../" || way == ".." then w.absolute (parent file) else w.cwd
    else w.cwd

def sourceIn (root file : String) : String := if isAbsolute file then file else absolute root file

/-- Enters a file whose graph has been stored in the manifest; one that cannot be read is not entered. -/
def enter (root source cache : String) : Try String × Workspace :=
  match Manifest.load w formatVersion root with
  | .error e => (.error e, w)
  | .ok m => match fileHash w source with
    | none => (.ok cache, w)
    | some hash => match (m.record w root source cache hash).save w root with
      | .ok w => (.ok cache, w)
      | .error e => (.error e, w)

/-- Stores the graph of a file and enters it in the manifest. The answer is where it is kept. -/
def save (g : Graph) (file : String) (root : Option String := none) : Try String × Workspace :=
  let root := rootFor w file root
  let source := sourceIn root file
  let cache := graphPath root (w.absolute source)
  match commitOf w root with
  | .error e => (.error e, w)
  | .ok commit =>
    let known := .obj [("project_root", .text root), ("commit_hash", .optText commit), ("file_path", .text file)]
    match write w formatVersion g cache known with
    | (.error e, w) => (.error e, w)
    | (.ok _, w) => enter w root source cache

def projectRoot (root : Option String) : String := w.absolute ((root.filter (· != "")).getD w.cwd)

def loadFile (file : String) (root : Option String := none) : Try (Option (Graph × Value)) := do
  let root := projectRoot w root
  let m ← Manifest.load w formatVersion root
  unless m.isFresh w root file do return none
  match m.recorded? w root file with
  | none => return none
  | some e =>
    let cache ← e.cachePath
    return if w.has cache then (read w formatVersion cache).toOption else none

/-- Where the file of an entry is; outside of the project there is nothing to look for. -/
def entryFile (root : String) (e : Entry) : Try (Option String) :=
  match e.file with
  | .text f =>
    .ok (if !Path.isAbsolute f then some (absolute root f)
      else if (pieces root).isPrefixOf (pieces f) then some f else none)
  | _ => .error .wrongKind

/-- One entry added to the graphs so far; `none` if the reading has to be given up. -/
def addEntry (m : Manifest) (root : String) (strict : Bool) (g : Graph) (e : Entry) : Try (Option Graph) := do
  match ← entryFile root e with
  | none => return some g
  | some file =>
    let otherwise : Option Graph := if strict then none else some g
    if !m.isFresh w root file then return otherwise
    let cache ← e.cachePath
    if !w.has cache then return otherwise
    match read w formatVersion cache with
    | .error _ => return otherwise
    | .ok (h, header) =>
      let from' := header.sub "project_root"
      if from'.truthy && from'.text? != some root then return some g
      return some (← g.merge h)

def addEntries (w : Workspace) (m : Manifest) (root : String) (strict : Bool) (g : Graph) :
    List Entry → Try (Option Graph)
  | [] => .ok (some g)
  | e :: rest => do
    match ← addEntry w m root strict g e with
    | some g => addEntries w m root strict g rest
    | none => return none

/-- The graphs of all files of a project as one. If it is to be strict, nothing may have changed. -/
def loadProject (root : Option String := none) (strict : Bool := true) : Try (Option (Graph × Value)) := do
  let root := projectRoot w root
  let m ← Manifest.load w formatVersion root
  match ← addEntries w m root strict {} (m.entries.map (·.2)) with
  | none => return none
  | some g =>
    if g.isEmpty then return none
    let commit ← commitOf w root
    let header ← Header.of w formatVersion (.obj [("project_root", .text root), ("commit_hash", .optText commit)])
    return some (g, header.value)

def demandProject (root : Option String := none) : Try (Graph × Value) := do
  match ← loadProject w root with
  | some x => return x
  | none => throw (.missing (some "Graph cache not found or stale"))

def onward (x : Try α × Workspace) (next : Workspace → Try β × Workspace) : Try β × Workspace :=
  match x with
  | (.error e, w) => (.error e, w)
  | (.ok _, w) => next w

def saveAll (w : Workspace) (root : String) : List (Value × Graph) → Try Unit × Workspace
  | [] => (.ok (), w)
  | (.text file, g) :: rest => onward (save w g file (some root)) (saveAll · root rest)
  | _ => (.error .wrongKind, w)

def saveProject (g : Graph) (root : Option String := none) : Try Nat × Workspace :=
  let root := projectRoot w root
  match g.split with
  | .error e => (.error e, w)
  | .ok l => onward (saveAll w root l) (.ok l.length, ·)

def saveFrom (root input : String) : Try Nat × Workspace :=
  match read w formatVersion (w.absolute input) with
  | .error e => (.error e, w)
  | .ok (g, _) => saveProject w g (some root)

end SecScan.Store
