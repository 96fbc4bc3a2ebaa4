import SecScan.Decimal.Binary
import SecScan.Files.Content
import SecScan.Path

/-! Files and directories under absolute paths, and a place to work with them. -/
namespace SecScan.Files

open SecScan.Path

inductive Entry where
  | file (content : Content) (time : Float)
  | dir (time : Float)

namespace Entry

def isDir : Entry → Bool
  | .dir _ => true
  | _ => false

def time : Entry → Float
  | .file _ t => t
  | .dir t => t

end Entry

/-- Entries under normal absolute paths, in the order in which they were made. -/
structure Disk where
  entries : List (String × Entry) := []

namespace Disk

variable (d : Disk) (p : String)

def get? : Option Entry := d.entries.lookup (normalize p)

def has : Bool := (d.get? p).isSome || normalize p == "/"

def isDir (d : Disk) (p : String) : Bool := normalize p == "/" || (d.get? p).any (·.isDir)

def isFile : Bool := (d.get? p).any (!·.isDir)

def isBlocked : Bool :=
  let parts := parts p
  (List.range parts.length).any fun n => d.isFile ("/" ++ "/".intercalate (parts.take n))

def absence : Fault := if d.isBlocked p then .notDirectory else .missing none

def content : Try Content :=
  match d.get? p with
  | some (.file c _) => .ok c
  | some (.dir _) => .error .isDirectory
  | none => .error (if d.isDir p then .isDirectory else d.absence p)

def read (d : Disk) (p : String) : Try String := d.content p >>= (·.read)

def put (e : Entry) : Disk := ⟨putField (normalize p) e d.entries⟩

variable (t : Float) (p : String)

/-- One name further on the way to a directory, which is made where there is nothing yet. -/
def makeDirStep (whole : String) (x : Disk × String) (name : String) : Try (Disk × String) :=
  let q := x.2 ++ "/" ++ name
  if x.1.isDir q then .ok (x.1, q)
  else if x.1.has q then .error (if q == whole then .exists else .notDirectory)
  else .ok (x.1.put q (.dir t), q)

def makeDirs : Try Disk :=
  ((parts p).foldlM (makeDirStep t (normalize p)) (d, "")).map (·.1)

def write (c : Content) : Try Disk :=
  if d.isDir p then .error .isDirectory
  else if d.isDir (parent (normalize p)) then .ok (d.put p (.file c t))
  else .error (d.absence p)

def place (c : Content) : Try Disk := do
  (← d.makeDirs t (parent (normalize p))).write t p c

def remove : Try Disk :=
  if d.isFile p then .ok ⟨d.entries.filter (·.1 != normalize p)⟩
  else .error (if d.isDir p then .isDirectory else d.absence p)

def removeTree : Disk := ⟨d.entries.filter (!Path.isBelow p ·.1)⟩

def removeDir : Try Disk :=
  if d.isFile p then .error .notDirectory else .ok (d.removeTree p)

def touch (p : String) (t : Float) : Disk :=
  match d.get? p with
  | some (.file c _) => d.put p (.file c t)
  | some (.dir _) => d.put p (.dir t)
  | none => d

def names : List String :=
  let q := normalize p
  d.entries.filterMap fun (r, _) => if parent r == q && r != "/" then some (name r) else none

def below (d : Disk) (p : String) : List (String × Content × Float) :=
  d.entries.filterMap fun (q, e) => match e with
    | .file c t => if isBelow p q then some (q, c, t) else none
    | .dir _ => none

variable (source target : String)

/-- Copies a file or a directory with all that is below it; copies keep their times. -/
def copyTree : Disk :=
  let n := (parts source).length
  d.entries.foldl (fun d' (q, e) =>
    if isBelow source q then d'.put (joinAll target ((parts q).drop n)) e else d') d

/-- Copies a file, into the target if that is a directory; the copy keeps the time. -/
def copyFile : Try Disk :=
  let target := if d.isDir target then join target (name source) else target
  match d.get? source with
  | some (.file c t) =>
    if normalize source == normalize target then .error .sameFile
    else if d.isDir target then .error .isDirectory
    else if d.isDir (parent (normalize target)) then .ok (d.put target (.file c t))
    else .error (d.absence target)
  | some (.dir _) => .error .isDirectory
  | none => .error (d.absence source)

def copyDir : Try Disk :=
  if d.has target then .error .exists else .ok (d.copyTree source target)

def move : Try Disk := do
  (← d.copyFile source target).remove source

def ofFiles (root : String) (t : Float) (files : List (String × Content)) : Try Disk := do
  files.foldlM (fun d (p, c) => d.place t (join root p) c) (← makeDirs {} t root)

end Disk

/-! A place to work in: files, a current directory, and the time. -/

structure Workspace where
  disk : Disk := {}
  cwd : String := "/"
  now : Float := 0.0

namespace Workspace

variable (w : Workspace) (p : String)

def absolute : String := Path.absolute w.cwd p

/-! Nothing stands under the empty path. -/

def has : Bool := p != "" && w.disk.has (w.absolute p)

def named : Try Unit := if p == "" then .error (.missing none) else .ok ()

def content : Try Content := do
  named p
  w.disk.content (w.absolute p)

def read : Try String := do
  named p
  w.disk.read (w.absolute p)

def makeDirs : Try Workspace := do
  named p
  return { w with disk := ← w.disk.makeDirs w.now (w.absolute p) }

def write (c : Content) : Try Workspace := do
  named p
  return { w with disk := ← w.disk.write w.now (w.absolute p) c }

def place (c : Content) : Try Workspace := do
  return { w with disk := ← w.disk.place w.now (w.absolute p) c }

def remove : Try Workspace := do
  return { w with disk := ← w.disk.remove (w.absolute p) }

def seconds : Int := Decimal.truncate w.now

end Workspace

end SecScan.Files
