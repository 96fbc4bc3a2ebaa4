import SecScan.Command.Act
import SecScan.Scan.Baseline
import SecScan.Store.Archive

/-! Commands that look after what is kept between scans. -/
namespace SecScan.Command

open Store SecScan.Path

/-! Sizes as people read them. -/

/-- Divides by 1024 while a larger unit is left; what is not in bytes has one place. -/
def scaledSize (x : Float) (unit : String) : List String → String
  | [] => Decimal.fixed 1 x ++ " " ++ unit
  | next :: rest => if 1024.0 ≤ x then scaledSize (x / 1024.0) next rest else Decimal.fixed 1 x ++ " " ++ unit

def sizeText (bytes : Int) : String :=
  if bytes < 1024 then toString bytes ++ " B"
  else scaledSize (Float.ofInt bytes / 1024.0) "KB" ["MB", "GB", "TB"]

/-- The size that any value stands for; fractions of a byte are dropped. -/
def sizeTextOf (size : Value) : Try String := do
  let x ← size.asReal
  if 1024.0 ≤ x then return scaledSize (x / 1024.0) "KB" ["MB", "GB", "TB"]
  return sizeText (← (Value.float x).toWhole)

open Files (Disk Workspace)

def feedbackPath (root : String) : String := joinAll root [".nsss", "feedback.json"]

def answersPath (root : String) : String := joinAll root [".nsss", "cache", "llm_cache.json"]

def projectRoot (given : Option String) : Act String := do
  let w ← work
  return w.absolute (given.getD w.cwd)

/-! Answers of a model -/

/-- Makes sure of the file with the answers. A file that is no JSON counts as empty. -/
def openAnswers : Act String := do
  let path := answersPath (← work).cwd
  change (·.makeDirs (parent path))
  unless (← work).has path do change (·.write path (.text "\x7b\x7d"))
  match (← work).read path with
  | .error .notText => throw (.fault .notText)
  | .error _ => return path
  | .ok text => match ← demand (Json.readIfJson text) with
    | none | some (.map _) => return path
    | some _ => throw (.fault .noField)

def clearCache (answers graphs : Bool) (root : Option String) : Act Unit := do
  if !answers && !graphs then
    say "No cache targets selected."
    throw .done
  if answers then
    let path ← openAnswers
    change (·.write path (.text "\x7b\x7d"))
    say ("Cleared LLM cache: " ++ path)
  if graphs then
    let dir := cacheDir (← projectRoot root)
    if (← work).has dir then
      changeDisk (·.removeDir dir)
      say ("Removed graph cache directory: " ++ dir)
    else say ("Graph cache not found: " ++ dir)

/-! Stored graphs -/

variable (root : Option String)

def graphExport (output : String) : Act Unit := do
  let root ← projectRoot root
  match ← demand (loadProject (← work) (some root)) with
  | none => throw (.complaint "Graph cache not found or stale")
  | some (g, header) =>
    let path := (← work).absolute output
    change (·.makeDirs (parent path))
    let (x, w) := write (← work) formatVersion g path header
    setWork w
    let _ ← demand x
    say ("Exported graph cache to: " ++ path)

def graphImport (input : String) : Act Unit := do
  let root ← projectRoot root
  changeDisk (·.removeDir (cacheDir root))
  let (x, w) := saveFrom (← work) root input
  setWork w
  say ("Imported graph cache entries: " ++ toString (← demand x))

/-! Health -/

def entrySize : Files.Entry → Nat
  | .file c _ => c.size
  | .dir _ => 4096

def yesNo (b : Bool) : String := if b then "True" else "False"

def timeText (t : Float) : String := Time.isoText (Time.ofSeconds t)

/-- A file as it is told of. All that is there can be read and written. -/
def describe (d : Disk) (path : String) : String :=
  let entry := d.get? path
  let writable := entry.isSome || d.has (parent path)
  path ++ " (exists=" ++ yesNo entry.isSome ++ ", size=" ++ sizeText ((entry.map entrySize).getD 0)
    ++ ", readable=" ++ yesNo entry.isSome ++ ", writable=" ++ yesNo writable
    ++ ", modified=" ++ ((entry.map fun e => timeText e.time).getD "n/a") ++ ")"

def health : Act Unit := do
  say "NSSS Ops Health Check"
  let root ← projectRoot root
  say ("Project root: " ++ root)
  let answers ← openAnswers
  let d := (← work).disk
  sayAll ["LLM cache: " ++ describe d answers, "Graph cache: " ++ describe d (manifestPath root),
    "Baseline file: " ++ describe d (Scan.baselinePath root),
    "Feedback store: " ++ describe d (feedbackPath root)]

/-! Entries of which only the latest are kept -/

def stamp (w : Workspace) : String := String.ofList ((timeText w.now).toList.filter Char.isDigit |>.take 14)

def latestFirst (d : Disk) (paths : List String) : List (String × Files.Entry) :=
  (paths.filterMap fun p => (d.get? p).map (p, ·)).mergeSort fun a b => b.2.time ≤ a.2.time

def startingWith (d : Disk) (dir start : String) : List String :=
  (((d.names dir).filter (Text.hasPrefix · start)).mergeSort (· ≤ ·)).map (join dir)

def prune (found : List (String × Files.Entry)) (keep : Int) (remove : Disk → String × Files.Entry → Disk) : Act Unit :=
  if keep < 0 then pure ()
  else changeDisk fun d => .ok ((found.drop keep.toNat).foldl remove d)

def rotateLogs (file : String) (keep : Int) : Act Unit := do
  let w ← work
  let path := w.absolute file
  if !w.has path then
    say ("Log file not found: " ++ path)
    throw .done
  let rotated := path ++ "." ++ stamp w
  changeDisk (·.move path rotated)
  change (·.write path (.text ""))
  say ("Rotated log file: " ++ rotated)
  let d := (← work).disk
  prune (latestFirst d (startingWith d (parent path) (name path ++ "."))) keep fun d (p, _) =>
    (d.remove p).toOption.getD d

end SecScan.Command
