import SecScan.Command.Upkeep

/-! Backups of what is kept between scans, and the way back to them. -/

/-! Paths with wildcards: `*` stands for any run of characters, `?` for one, and a bracket for one of
those it lists. -/
namespace SecScan.Files

inductive Wildcard where
  | letter (c : Char)
  | one
  | run
  | oneOf (ranges : List (Char × Char))
  | noneOf (ranges : List (Char × Char))

namespace Wildcard

def ranges : List Char → List (Char × Char)
  | a :: '-' :: b :: rest => (a, b) :: ranges rest
  | a :: rest => (a, a) :: ranges rest
  | [] => []

def ofList : List Char → Wildcard
  | '!' :: listed => .noneOf (ranges listed)
  | listed => .oneOf (ranges listed)

/-- What a bracket lists, from behind its start. A closing bracket at its front is listed, too. -/
def listed? (s : List Char) : Option (List Char) :=
  let front := if s.head? == some '!' then 1 else 0
  let front := if (s.drop front).head? == some ']' then front + 1 else front
  let rest := s.drop front
  if rest.contains ']' then some (s.take (front + rest.idxOf ']')) else none

/-- Reads a pattern behind the characters that a bracket has used up. -/
def readBehind : Nat → List Char → List Wildcard
  | _, [] => []
  | n + 1, _ :: rest => readBehind n rest
  | 0, '*' :: rest => .run :: readBehind 0 rest
  | 0, '?' :: rest => .one :: readBehind 0 rest
  | 0, '[' :: rest => match listed? rest with
    | some l => ofList l :: readBehind (l.length + 1) rest
    | none => .letter '[' :: readBehind 0 rest
  | 0, c :: rest => .letter c :: readBehind 0 rest

def read (pattern : String) : List Wildcard := readBehind 0 pattern.toList

def within (c : Char) (l : List (Char × Char)) : Bool := l.any fun (a, b) => a ≤ c && c ≤ b

def fits (c : Char) : Wildcard → Bool
  | letter x => c == x
  | one => true
  | run => false
  | oneOf l => within c l
  | noneOf l => !within c l

def allFit : List Wildcard → List Char → Bool
  | [], s => s.isEmpty
  | .run :: rest, s => (List.range (s.length + 1)).any fun n => allFit rest (s.drop n)
  | w :: rest, c :: s => w.fits c && allFit rest s
  | _ :: _, [] => false

end Wildcard

/-- Whether a name fits a pattern. A name that starts with a dot is only for patterns that do. -/
def nameFits (pattern name : String) : Bool :=
  (Text.hasPrefix pattern "." || !Text.hasPrefix name ".") && Wildcard.allFit (Wildcard.read pattern) name.toList

def isPattern (s : String) : Bool := s.any fun c => c == '*' || c == '?' || c == '['

def Disk.find (d : Disk) (pattern : String) : List String :=
  (Path.parts pattern).foldl (fun dirs part => dirs.flatMap fun dir =>
    let names := if isPattern part then ((d.names dir).filter (nameFits part)).mergeSort (· ≤ ·) else [part]
    (names.map (Path.join dir)).filter d.has) ["/"]

end SecScan.Files

namespace SecScan.Command

open Files (Disk Workspace)

inductive Target where
  | baseline | graph | answers | feedback
  deriving DecidableEq

namespace Target

def name : Target → String
  | .baseline => "baseline"
  | .graph => "graph"
  | .answers => "llm-cache"
  | .feedback => "feedback"

def all : List Target := [.baseline, .graph, .answers, .feedback]

def named (word : String) : List Target := if word == "all" then all else all.filter (·.name == word)

def path (root : String) : Target → String
  | .baseline => Scan.baselinePath root
  | .graph => Store.cacheDir root
  | .answers => answersPath root
  | .feedback => feedbackPath root

def backups (t : Target) (d : Disk) (root : String) : List (String × Files.Entry) :=
  latestFirst d (d.find (t.path root ++ ".backup.*"))

end Target

def removeBackup (d : Disk) (x : String × Files.Entry) : Disk :=
  if x.2.isDir then d.removeTree x.1 else (d.remove x.1).toOption.getD d

variable (root : String) (t : Target)

def pruneBackups (keep : Int) : Act Unit := do
  prune (t.backups (← work).disk root) keep removeBackup

def makeBackup : Act (Option String) := do
  let w ← work
  let source := t.path root
  if !w.has source then return none
  let path := source ++ ".backup." ++ stamp w
  changeDisk fun d => if d.isDir source then d.copyDir source path else d.copyFile source path
  return some path

def backupEach (root : String) (keep : Int) : List Target → Act Nat
  | [] => return 0
  | t :: rest => do
    match ← makeBackup root t with
    | none => backupEach root keep rest
    | some path =>
      say ("Created backup: " ++ path)
      pruneBackups root t keep
      return (← backupEach root keep rest) + 1

def demandState : Act Unit := do
  let dir := Path.join root ".nsss"
  unless (← work).has dir do
    say ("NSSS directory not found: " ++ dir)
    throw .done

def backup (target : String) (root : Option String) (keep : Int) : Act Unit := do
  let root ← projectRoot root
  demandState root
  let n ← backupEach root keep (Target.named target)
  say ("Backup complete. Created " ++ toString n ++ " backup(s).")

/-! The way back -/

structure RollbackRequest where
  target : Option String := none
  file : Option String := none
  root : Option String := none
  list : Bool := false
  dryRun : Bool := false
  yes : Bool := false
  prune : Bool := false
  keep : Int := 10

def listingOf (d : Disk) (root : String) (t : Target) : List String :=
  match t.backups d root with
  | [] => []
  | l => [Text.upper t.name ++ ":"] ++ (l.flatMap fun (path, e) =>
      ["  - " ++ path, "    Size: " ++ sizeText (entrySize e) ++ ", Modified: " ++ timeText e.time]) ++ [""]

def listBackups : Act Unit := do
  sayAll ["Available backups:", ""]
  let lines := Target.all.flatMap (listingOf (← work).disk root)
  sayAll (if lines.isEmpty then ["No backups found."] else lines)

/-- Asks until the answer is yes or no; no answer is no. -/
def confirmed (question : String) : Nat → Act Bool
  | 0 => return false
  | n + 1 => do
    let line ← readLine
    say (question ++ " [y/N]: " ++ line)
    match Text.strip (Text.lower line) with
    | "y" | "yes" => return true
    | "n" | "no" | "" => return false
    | _ =>
      say "Error: invalid input"
      confirmed question n

def restore (source : String) : Act Unit := do
  let target := t.path root
  let w ← work
  let source := w.absolute source
  if w.disk.isDir source then changeDisk (·.removeDir target)
  change (·.makeDirs (Path.parent target))
  changeDisk fun d => if d.isDir source then d.copyDir source target else d.copyFile source target

variable (r : RollbackRequest)

def rollBack (root : String) (t : Target) : Act Unit := do
  match r.file.or ((t.backups (← work).disk root).head?.map (·.1)) with
  | none => say ("No backup found for " ++ t.name ++ ".")
  | some source =>
    if r.dryRun then say ("[DRY RUN] Would restore " ++ t.name ++ " from: " ++ source)
    else
      restore root t source
      say ("Rolled back " ++ t.name ++ " from: " ++ source)

def pruneAll (root : String) : Act Unit := do
  match r.target with
  | none => say "Error: --target is required for pruning."
  | some target => (Target.named target).forM fun t => do
    pruneBackups root t r.keep
    say ("Pruned old backups for " ++ t.name ++ ", keeping " ++ toString r.keep ++ " most recent.")

def rollBackAll (root : String) : Act Unit := do
  match r.target with
  | none => say "Error: --target is required for rollback."
  | some target =>
    if target == "all" && r.file.isSome then
      say "Error: Cannot specify --backup-file with --target=all."
      throw .done
    unless r.yes || r.dryRun do
      let lines := (← get).input.length
      unless ← confirmed ("This will restore " ++ target ++ " from backup. Continue?") (lines + 1) do
        say "Rollback cancelled."
        throw .done
    (Target.named target).forM (rollBack r root)

def rollback : Act Unit := do
  let root ← projectRoot r.root
  demandState root
  if r.list then listBackups root
  else if r.prune then pruneAll r root
  else rollBackAll r root

end SecScan.Command
