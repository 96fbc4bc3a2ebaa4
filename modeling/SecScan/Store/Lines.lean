import SecScan.Store.Record

/-! Files of stored graphs: a line per record, the first about the file itself. -/
namespace SecScan.Store

/-! The commit that a working copy is at. -/

open Files (Workspace)

/-- The commit of a repository, if there is one. A reference is followed one step. -/
def commitOf (w : Workspace) (root : String) : Try (Option String) :=
  let dir := Path.join root ".git"
  let said (p : String) : Try (Option String) :=
    if !w.has p then .ok none
    else match w.read p with
      | .ok s => .ok (some (Text.strip s))
      | .error .notText => .error .notText
      | .error _ => .ok none
  do
    match ← said (Path.join dir "HEAD") with
    | none => return none
    | some head =>
      if Text.hasPrefix head "ref:" then match Text.cut? head " " with
        | some (_, ref) => said (Path.join dir (Text.strip ref))
        | none => throw .outOfRange
      else return if head.isEmpty then none else some head

end SecScan.Store

namespace SecScan.Store

open Files (Workspace Content)

structure Header where
  version : Value
  time : Int
  root : String
  commit : Value
  file : Value := .null

def Header.value (h : Header) : Value :=
  .obj ([("type", .text "meta"), ("version", h.version), ("timestamp", .int h.time),
    ("project_root", .text h.root), ("commit_hash", h.commit)]
    ++ if h.file.truthy then [("file_path", h.file)] else [])

variable (w : Workspace)

def Header.of (version known : Value) : Try Header := do
  let root ← match (known.sub "project_root").orElse (.text w.cwd) with
    | .text s => pure (w.absolute s)
    | _ => throw .wrongKind
  let commit := known.sub "commit_hash"
  let commit ← if commit.truthy then pure commit
    else (commitOf w root).map fun c => (Value.optText c).orElse (.text "unknown")
  let time ← ((known.sub "timestamp").orElse (.float w.now)).toWhole
  return { version, time, root, commit, file := known.sub "file_path" }

def recordLine (kind : String) (v : Value) : Try String := Json.render {} (v.put "record_type" (.text kind))

def lines (h : Header) (g : Graph) : List (Try String) :=
  [Json.render {} h.value] ++ g.nodes.map (recordLine "node" ·.value)
    ++ g.edges.map (recordLine "edge" ·.value) ++ g.symbols.map (recordLine "symbol" ·.value)

/-- The lines before the first that cannot be written, and why it cannot. -/
def linesSoFar : List (Try String) → List String × Option Fault
  | [] => ([], none)
  | .ok s :: rest => let (l, e) := linesSoFar rest; (s :: l, e)
  | .error e :: _ => ([], some e)

variable (version : Value)

def write (g : Graph) (path : String) (known : Value) : Try Header × Workspace :=
  match Header.of w version known with
  | .error e => (.error e, w)
  | .ok h =>
    let (l, fault) := linesSoFar (lines h g)
    match w.place path (.text (String.join (l.map (· ++ "\n")))) with
    | .error e => (.error e, w)
    | .ok w => match fault with
      | some e => (.error e, w)
      | none => (.ok h, w)

/-! Reading -/

def recordKinds : List String := ["meta", "node", "edge", "symbol"]

def recordKind (r : Value) : Try Value :=
  let stated := r.sub "record_type"
  if !stated.isNull then .ok stated
  else
    let kind := r.sub "type"
    if !Syntax.isHashable kind then .error .wrongKind
    else .ok (match kind with
      | .text s => if recordKinds.contains s then kind else .null
      | _ => .null)

def readHeader (version kind r : Value) : Try Value :=
  if kind.text? != some "meta" then .error (.invalid (some "First line must be meta"))
  else if !(r.sub "version").same version then
    .error (.invalid (some ("Unsupported graph version: " ++ (r.sub "version").display)))
  else .ok r

def readRecord (g : Graph) (kind r : Value) : Try Graph :=
  match kind with
  | .text "node" => do return { g with nodes := g.nodes ++ [← Node.ofValue r] }
  | .text "edge" => do return { g with edges := g.edges ++ [← Edge.ofValue r] }
  | .text "symbol" => do return { g with symbols := g.symbols ++ [← Symbol.ofValue r] }
  | _ => .ok g

def readLine (state : Option Value × Graph) (line : String × Nat) : Try (Option Value × Graph) := do
  let s := Text.strip line.1
  if s.isEmpty then return state
  let r ← Json.read s
  unless r.isMap do throw .noField
  let kind ← recordKind r
  if line.2 == 0 then return (some (← readHeader version kind r), state.2)
  return (state.1, ← readRecord state.2 kind r)

def readLines (c : Content) : Try (Graph × Value) := do
  let (l, fault) := c.linesSoFar
  let found ← l.zipIdx.foldlM (readLine version) (none, {})
  if let some e := fault then throw e
  match found with
  | (some header, g) => return (g, header)
  | (none, _) => throw (.invalid (some "Missing graph metadata"))

def read (path : String) : Try (Graph × Value) :=
  if !w.has path then .error (.missing (some ("Graph cache not found: " ++ path)))
  else do readLines version (← w.content path)

end SecScan.Store
