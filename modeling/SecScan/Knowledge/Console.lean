import SecScan.Knowledge.Librarian
import SecScan.Knowledge.Registry
import SecScan.Knowledge.Shadow

/-! Scripts for what is known. -/
namespace SecScan.Knowledge

def cells (l : List Cell) : List Value := l.map Cell.value

def byCell (key : α → Cell) (l : List α) : List α := l.mergeSort fun a b =>
  match key a, key b with
  | none, _ => true
  | some _, none => false
  | some s, some t => s ≤ t

structure Desk where
  librarian : Librarian := {}
  readRules : String → Try Value := fun _ => .ok .null

def deskCounts : List (String × Nat × Nat) :=
  [("profiles", 2, 2), ("add_profile", 4, 5), ("hash", 1, 1), ("snippet_hash", 1, 1), ("query", 1, 3),
   ("store", 4, 6), ("populate", 1, 1), ("vuln", 5, 5), ("remedy", 3, 4), ("find", 2, 2)]

def Desk.console : Console Desk := (Console.timeless fun d _ name args =>
  let l := d.librarian
  let a (n : Nat) := (args[n]?).getD .null
  let keep (r : Try Librarian) : Answer × Desk := keeping d r fun l => (.ok .null, { d with librarian := l })
  let rows (r : List (List Value)) : Answer × Desk := (.ok (Value.rows r), d)
  match name with
  | "profiles" => (do
      let ps ← l.profilesOf (a 0) (a 1)
      return .list (← Value.sortOn id (ps.map fun p => .list (cells [p.spec, p.kind, p.identifier, p.metadata]))), d)
  | "add_profile" => keep (l.addProfile (a 0) (a 1) (a 2) (a 3) (a 4))
  | "hash" => ((promptHash (a 0)).map .text, d)
  | "snippet_hash" => ((snippetHash (a 0)).map .text, d)
  | "query" => ((l.query (a 0) (a 1) (a 2)).map (·.getD .null), d)
  | "store" => keep (l.store (a 0) (a 1) (a 2) (a 3) (a 4) (a 5))
  | "populate" => keeping d (d.readRules ((a 0).text?.getD "")) fun doc =>
    let (r, l) := l.populate doc; (r.map fun _ => .null, { d with librarian := l })
  | "vuln" => keep (l.addWeakness (a 0) (a 1) (a 2) (a 3) (a 4))
  | "remedy" => keep (l.addRemedy (a 0) (a 1) (a 2) (args.getD 3 (.text "")))
  | "find" => (do
      let found := l.find? (← Cell.of 1 (a 0)) (← Cell.of 2 (a 1))
      return Value.ofOption (fun x => .list (cells [x.checkId, x.verdict, x.model])) found, d)
  | "vulns" => rows ((byCell (·.id) l.weaknesses).map fun w => cells [w.id, w.name, w.description, w.owasp, w.cwe])
  | "remedies" => rows (l.remedies.map fun r => .nat r.id :: cells [r.weakness, r.name, r.description, r.template])
  | "decisions" => rows ((byCell (some ·.hash) l.decisions).map fun x =>
      cells [x.checkId, x.verdict, x.rationale, x.remediation, x.model, x.response, x.snippetHash])
  | "populate_missing" => (.ok .null, d)
  | _ => (.error .noKey, d)).taking deskCounts

def names (l : List Function) : Value := .list (l.map (·.name))

def releaseRow (r : Release) : Value := .list [r.version, names r.functions]

structure Shelf where
  registry : Registry := []
  files : List (String × Files.Content) := []

namespace Shelf

def load (s : Shelf) (files : Value) : Try Unit × Shelf :=
  let files := (files.fields.filterMap fun (p, v) => (Files.Content.ofValue? v).map (p, ·)).foldl
    (fun l (p, c) => putField p c l) s.files
  let (x, r) := s.registry.load (files.filter fun f => !f.1.contains '/')
  (x, ⟨r, files⟩)

def dependency (d : Value) : Try (Value × Value) := do
  d.onlyFields ["name", "version", "specifier", "extras", "source"]
  match d.get? "name" with
  | some name => return (name, d.sub "version")
  | none => throw .wrongKind

def counts : List (String × Nat × Nat) :=
  [("add", 1, 1), ("load", 1, 1), ("stdlib", 1, 1), ("get", 2, 2), ("latest", 1, 1), ("match", 1, 1),
   ("functions", 2, 2), ("sinks", 2, 2), ("sources", 2, 2), ("sanitizers", 2, 2)]

def console : Console Shelf := (Console.timeless (fun s _ name args =>
    let r := s.registry
    let (a, b) := (args.headD .null, (args[1]?).getD .null)
    let shown (x : Try (Option Release)) : Answer := x.map (Value.ofOption releaseRow)
    let listed (x : Try (List Function)) : Answer := x.map names
    let added (l : Try Library) (answer : Library → Value) : Answer × Shelf :=
      keeping s (do let l ← l; return (l, ← r.add l)) fun (l, r) =>
        (.ok (answer l), { s with registry := r })
    match name with
    | "add" => added (Library.ofValue a) fun _ => .null
    | "load" => let (x, s) := s.load a; (x.map fun _ => .null, s)
    | "load_missing" => (.ok .null, s)
    | "all" => (.ok (Value.sortedTexts (r.filterMap fun (_, l) => l.name.text?)), s)
    | "stdlib" => match (a.asText "lower").map builtinLibrary? with
      | .ok (some l) => added (.ok l) (·.value)
      | .ok none => (.ok .null, s)
      | .error e => (.error e, s)
    | "get" => (shown (r.get? a b), s)
    | "latest" => (shown (r.latest? a), s)
    | "match" => (do
        let l ← r.matching (← (← a.each).mapM dependency)
        return .obj (l.map fun (k, x) => (k, releaseRow x)), s)
    | "functions" => (listed (r.functions a b), s)
    | "sinks" => (listed (r.labelled .sink a b), s)
    | "sources" => (listed (r.labelled .source a b), s)
    | "sanitizers" => (listed (r.labelled .sanitizer a b), s)
    | _ => (.error .noKey, s))
  fun s => some (Value.sortedTexts (s.registry.map (·.1)))).taking counts

end Shelf

/-- The arguments of a command: all that are needed and none that are not known. -/
def checked (v : Value) (needed optional : List String) : Try Unit :=
  if v.isMap && needed.all v.has && v.fields.all fun (k, _) => needed.contains k || optional.contains k then
    .ok ()
  else .error .wrongKind

def fieldNames : List String :=
  ["name", "ecosystem", "description", "homepage", "repository", "_versions", "_current_version"]

def Library.console : Console Library := .timeless fun l _ name args =>
  let v := args.headD (.obj [])
  let done (needed optional : List String) (f : Try Library) : Answer × Library :=
    keeping l (checked v needed optional >>= fun _ => f) fun l => (.ok (.bool true), l)
  match name, args with
  | _, _ :: _ :: _ => (.error .wrongKind, l)
  | "set_description", _ => done ["description"] [] (.ok { l with description := v.sub "description" })
  | "set_homepage", _ => done ["homepage"] [] (.ok { l with homepage := v.sub "homepage" })
  | "set_repository", _ => done ["repository"] [] (.ok { l with repository := v.sub "repository" })
  | "add_version", _ => done ["version"] ["release_date", "deprecated"] (.ok (l.addRelease
      { version := v.sub "version", date := v.sub "release_date"
        deprecated := v.getD "deprecated" (.bool false) }))
  | "add_source", _ => done ["name"] ["description", "returns_tainted", "cwe_id"] (.ok (l.addSource
      (v.sub "name") (v.sub "description") (v.sub "cwe_id") (v.getD "returns_tainted" (.bool true))))
  | "add_sink", _ => done ["name"] ["description", "cwe_id", "tainted_params"] (do
      let tainted := v.sub "tainted_params"
      return l.addSink (v.sub "name") (v.sub "description") (v.sub "cwe_id")
        (← if tainted.truthy then tainted.each else .ok []))
  | "add_sanitizer", _ => done ["name"] ["description"] (.ok (l.addFunction
      { name := v.sub "name", label := .sanitizer, description := v.sub "description" }))
  | "add_function", _ =>
    match Label.ofValue? (v.getD "label" (.text "none")) with
    | none => (.error .invalid, l)
    | some label => done ["name"] ["label", "parameters", "returns_tainted", "description", "cwe_id"]
        (.ok (l.addFunction { name := v.sub "name", label
                              parameters := (v.sub "parameters").orElse (.list [])
                              returnsTainted := v.getD "returns_tainted" (.bool false)
                              description := v.sub "description", cwe := v.sub "cwe_id" }))
  | "build", [] => (.ok l.value, l)
  | "build", _ => (.error .wrongKind, l)
  | _, _ => (.error (if fieldNames.contains name then .wrongKind else .noField), l)

def Library.ofArgs (args : List Value) : Try Library :=
  match args with
  | [name] => .ok { name, ecosystem := .text "pypi" }
  | [name, ecosystem] => .ok { name, ecosystem }
  | _ => .error .wrongKind

end SecScan.Knowledge
