import SecScan.Command.Line
import SecScan.Syntax.Interchange

/-! The program. The project that a command works on arrives as a document, one line of the standard
input: its files under their paths, the syntax trees of its source files, what is typed in, and the
time. What the command says goes to the standard output, and the files as it leaves them, again as
a document, to the standard error. Other programs are never started; they count as missing. -/
namespace SecScan.Command

def workingDirectory : String := "/project"

def treesIn (doc : Value) : Fields :=
  (doc.sub "files").fields.filterMap fun (path, content) =>
    (content.text?).bind fun text => ((doc.sub "trees").get? path).map (text, ·)

def treeOf (trees : Fields) (text : String) : Try Syntax.Module :=
  match (trees.lookup text).bind Syntax.Interchange.module? with
  | some m => .ok m
  | none => .error (.unreadable "SyntaxError")

def hostOf (doc : Value) : Try Host := do
  let now := ((doc.sub "time").number?).getD 0.0
  let files := (doc.sub "files").plain.fields.filterMap fun (path, v) => (Files.Content.ofValue? v).map (path, ·)
  return { work := { disk := ← Files.Disk.ofFiles workingDirectory now files, cwd := workingDirectory, now }
           parse := treeOf (treesIn doc), yaml := fun _ => .malformed }

def contentValue : Files.Content → Value
  | .text s => .text s
  | .bytes b => .bytes b

def filesOf (h : Host) : Value :=
  .obj ((h.work.disk.below workingDirectory).map fun (path, content, _) =>
    (Path.relative workingDirectory path, contentValue content))

/-- Runs a command line on a described project: the exit code, what is said, and the files after it. -/
def runOn (words : List String) (doc : Value) : Try (Nat × String × Value) := do
  let (ending, h) := runLine (← hostOf doc) words (doc.str "input")
  return (ending.code, ending.output, filesOf h)

end SecScan.Command

open SecScan in
def main (words : List String) : IO UInt32 := do
  let line ← (← IO.getStdin).getLine
  match Json.read line >>= Command.runOn words with
  | .ok (code, said, files) =>
    (← IO.getStdout).putStr said
    match Json.render {} (files.marked Decimal.shortest) with
    | .ok text => (← IO.getStderr).putStrLn text
    | .error _ => pure ()
    return code.toUInt32
  | .error _ => return 2
