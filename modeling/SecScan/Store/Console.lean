import SecScan.Store.Archive

/-! Scripts for stored graphs. -/
namespace SecScan.Store

open Files (Workspace Content)

structure Desk where
  work : Workspace
  parse : String → String → Try (Ir.Graph String)
  full : Bool := false

def Place.inFile (file : Value) : Place := .known file ⟨"", 1, 0, 1, 1⟩

def Graph.ofBrief (v : Value) : Graph :=
  { nodes := (v.listAt "nodes").filterMap fun n => match n.items with
      | [id, kind, file] => some { id, kind, place := .inFile file }
      | _ => none
    edges := (v.listAt "edges").filterMap fun e => match e.items with
      | [source, target, kind] => some { source, target, kind }
      | _ => none
    symbols := (v.listAt "symbols").filterMap fun s => match s.items with
      | [name, defs, uses] => some { name, kind := .text "var", container := .text "s", defs, uses }
      | _ => none }

namespace Desk

variable (d : Desk)

def loaded (x : Try (Option (Graph × Value))) : Answer := do
  match ← x with
  | none => return .null
  | some (g, header) => return .list [← if d.full then g.rows else pure g.counts, header.erase "timestamp"]

def fromHere (v : Value) : Answer :=
  if !v.truthy then .error (.invalid none)
  else match v with
    | .text p => .ok (.text (Path.relative d.work.cwd (d.work.absolute p)))
    | _ => .error .wrongKind

def rewritten (x : Try Workspace) : Answer × Desk :=
  keeping d x fun w => (.ok .null, { d with work := w })

def manifest : Answer := do
  let m ← Manifest.load d.work formatVersion d.work.cwd
  return Value.sortedRows (← m.entries.mapM fun (k, e) => do
    return [.text k, e.file, e.hash, ← d.fromHere e.cache, e.time])

def console : Console Desk :=
  { step := fun d now name args =>
      let d := { d with work := { d.work with now } }
      let w := d.work
      let path := (args.head?.bind (·.text?)).getD ""
      let pathless := ["save", "delete", "load_file", "hash", "fresh", "corrupt", "corrupt_manifest", "cache"].contains
        name && !(args.headD .null).isText
      let kept (x : Try Value × Workspace) : Answer × Desk := (x.1, { d with work := x.2 })
      let cache := graphPath w.cwd (w.absolute path)
      let answer : Answer × Desk := if pathless then (.error .wrongKind, d) else match name with
        | "save" => keeping d (w.read path >>= d.parse path) fun g =>
            let (r, w) := save w (.ofIr g) path
            kept (r >>= fun p => d.fromHere (.text p), w)
        | "write" => d.rewritten ((args.headD .null).fields.foldlM (fun w (p, v) =>
            match Content.ofValue? v with
            | some c => w.place p c
            | none => .ok w) w)
        | "delete" => d.rewritten (w.remove path)
        | "manifest" => (d.manifest, d)
        | "load_file" => (d.loaded (loadFile w path), d)
        | "load" => (d.loaded (loadProject w none ((args.head?.map (·.truthy)).getD true)), d)
        | "load_graph" => (d.loaded ((demandProject w).map some), d)
        | "save_project" =>
          let (r, w) := saveProject w (.ofBrief (args.headD .null))
          kept (r.map .nat, w)
        | "hash" => (.ok (.optText (fileHash w path)), d)
        | "fresh" => (do return .bool ((← Manifest.load w formatVersion w.cwd).isFresh w w.cwd path), d)
        | "commit" => ((commitOf w w.cwd).map .optText, d)
        | "corrupt" => match Content.ofValue? (args.getD 1 .null) with
          | some c => d.rewritten (w.place cache c)
          | none => (.error .wrongKind, d)
        | "corrupt_manifest" => d.rewritten (w.place (manifestPath w.cwd) (.text path))
        | "cache" => ((w.read cache).map .text, d)
        | _ => (.error .noKey, d)
      (answer.1, answer.2, now) }

end Desk

end SecScan.Store
