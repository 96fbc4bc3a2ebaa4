import SecScan.Store.Lines

/-! The manifest of a project's stored graphs: which file each is of, and what the file held. -/
namespace SecScan.Store

open Files (Workspace Content)

/-! Where things are kept -/

variable (root : String)

def projectHash : String := Digest.sha256 (Path.normalize root)

def cacheDir : String := Path.joinAll root [".nsss", "cache", projectHash root]

def manifestPath : String := Path.join (cacheDir root) "manifest.json"

def graphPath (root file : String) : String :=
  Path.join (cacheDir root) ("graph_file_" ++ Digest.sha256 (Path.relative root file) ++ ".jsonl")

def fileHash (w : Workspace) (path : String) : Option String :=
  (w.content path).toOption.map fun c => Digest.sha256Bytes c.toBytes

/-! Entries -/

structure Entry where
  file : Value
  hash : Value
  cache : Value
  time : Value

namespace Entry

def value (e : Entry) : Value :=
  .obj [("file_path", e.file), ("file_hash", e.hash), ("cache_path", e.cache), ("updated_at", e.time)]

def keys : List String := ["file_path", "file_hash", "cache_path", "updated_at"]

/-- An entry has exactly its four fields. -/
def ofValue (v : Value) : Try Entry :=
  match v with
  | .map es =>
    if keys.all v.has && es.length == keys.length then
      .ok ⟨v.sub "file_path", v.sub "file_hash", v.sub "cache_path", v.sub "updated_at"⟩
    else .error .wrongKind
  | _ => .error .wrongKind

def named (x : Value × Value) : Try (String × Entry) := do return (x.1.text?.getD "", ← ofValue x.2)

def cachePath (e : Entry) : Try String :=
  match e.cache with
  | .text s => .ok s
  | _ => .error .wrongKind

end Entry

structure Manifest where
  version : Value
  time : Int := 0
  entries : List (String × Entry) := []

namespace Manifest

variable (m : Manifest)

def value : Value :=
  .obj [("version", m.version), ("updated_at", .int m.time),
    ("entries", .obj (m.entries.map fun (k, e) => (k, e.value)))]

def ofValue (v : Value) : Try Manifest := do
  let entries ← match ← v.field "entries" (.obj []) with
    | .map es => es.mapM Entry.named
    | _ => throw .noField
  return { version := v.getD "version" (.text "1.0"), entries
           time := ← (v.getD "updated_at" (.int 0)).toWhole }

variable (w : Workspace)

def load (version : Value) (root : String) : Try Manifest :=
  let empty : Manifest := { version }
  match w.read (manifestPath root) with
  | .error .notText => .error .notText
  | .error _ => .ok empty
  | .ok s => do
    match ← Json.readIfJson s with
    | some v => ofValue v
    | none => return empty

def save (root : String) : Try Workspace := do
  w.place (manifestPath root) (.text (← Json.render (Json.indented 2) m.value))

variable (root file : String)

def nameOf : String := Path.relative root (w.absolute file)

def recorded? : Option Entry :=
  m.entries.lookup (nameOf w root file)

/-- Whether a file still holds what it did when its graph was stored. -/
def isFresh : Bool :=
  match fileHash w file, m.recorded? w root file with
  | some h, some e => e.hash.text? == some h
  | _, _ => false

def record (root file cache hash : String) : Manifest :=
  let name := nameOf w root file
  { m with
    time := w.seconds
    entries := putField name ⟨.text name, .text hash, .text cache, .int w.seconds⟩ m.entries }

end Manifest

end SecScan.Store
