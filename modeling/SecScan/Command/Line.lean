import SecScan.Command.Backup
import SecScan.Command.Scan
import SecScan.Command.Table

/-! The command line: words lead to a command and its options. -/
namespace SecScan.Command

/-! What commands say of themselves. -/

def helpWidth : Nat := 78

def spaces (n : Nat) : String := Text.repeated n " "

/-- Breaks a text between words so that lines are no longer than a width, if the words are not. Blanks
within a line stay as they are. -/
def wrapFrom (width : Nat) : String → List String → List String
  | line, [] => [line]
  | line, word :: rest =>
    let longer := line ++ " " ++ word
    if (Text.strip longer).length ≤ width then wrapFrom width longer rest
    else Text.stripRight line :: wrapFrom width word rest

def wrap (width : Nat) (s : String) : List String :=
  match Text.split s " " with
  | [] => []
  | word :: rest => wrapFrom width word rest

/-- Terms with what they mean, in two columns. A long term has a line of its own. -/
def definitions (rows : List (String × String)) : List String :=
  let column := min (((rows.map (·.1.length)).max?).getD 0) 30 + 2
  rows.flatMap fun (term, meaning) =>
    let lines := wrap (max (helpWidth - column - 2) 10) meaning
    let below (l : List String) := l.map (spaces (column + 2) ++ ·)
    if term.length ≤ column - 2 then
      match lines with
      | [] => ["  " ++ term]
      | l :: rest => ("  " ++ term ++ spaces (column - term.length) ++ l) :: below rest
    else ("  " ++ term) :: below lines

def Opt.term (o : Opt) : String :=
  match o.takes with
  | .nothing => o.name
  | .switch off => o.name ++ " / " ++ off
  | .text => o.name ++ " TEXT"
  | .whole => o.name ++ " INTEGER"
  | .choice names => o.name ++ " [" ++ "|".intercalate names ++ "]"
  | .path r => o.name ++ (if !r.files then " DIRECTORY" else if !r.dirs then " FILE" else " PATH")

def Opt.meaning (o : Opt) : String :=
  o.about ++ (if o.told then "  [default: " ++ o.usual.getD "" ++ "]" else "")
    ++ if o.required then "  [required]" else ""

def page (usage about : String) (options : List Opt) (more : List String) : String :=
  "\n".intercalate (["Usage: " ++ usage, ""] ++ (wrap (helpWidth - 2) about).map ("  " ++ ·)
    ++ ["", "Options:"] ++ definitions (options.map fun o => (o.term, o.meaning)) ++ more)

def Spec.help (s : Spec) (way : String) : String :=
  page (way ++ " " ++ s.name ++ " [OPTIONS]" ++ ((s.argument.map fun a => " " ++ a.1).getD ""))
    s.about s.allOptions []

def groupHelp (way about : String) (commands : List (String × String)) : String :=
  page (way ++ " [OPTIONS] COMMAND [ARGS]...") about [helpOption]
    (["", "Commands:"] ++ definitions (commands.mergeSort (·.1 ≤ ·.1)))

structure Entry where
  spec : Spec
  act : Given → Act Unit

def programName : String := "cli"

def scanEntry : Entry where
  spec := scanSpec
  act g := scan
    { target := g.words.headD "", mode := (g.chosen scanSpec "--mode").getD ""
      format := (g.chosen scanSpec "--format").getD "", baseline := g.isSet "--baseline"
      baselineOnly := g.isSet "--baseline-only", baselineReset := g.isSet "--baseline-reset"
      reportTypes := (g.all "--report-type").map Text.plain, emitIr := g.isSet "--emit-ir"
      stripDocstrings := g.isSet "--strip-docstrings", diff := g.isSet "--diff"
      reportDir := (g.text scanSpec "--report-dir").getD "" }

def upkeepEntries : List Entry :=
  [{ spec := clearCacheSpec
     act := fun g => clearCache (g.text clearCacheSpec "--llm-cache" == some "on")
       (g.text clearCacheSpec "--graph-cache" == some "on") (g.text clearCacheSpec "--project-root") },
    { spec := graphExportSpec
      act := fun g => graphExport (g.text graphExportSpec "--project-root")
        ((g.text graphExportSpec "--output").getD "") },
    { spec := graphImportSpec
      act := fun g => graphImport (g.text graphImportSpec "--project-root")
        ((g.text graphImportSpec "--input").getD "") },
    { spec := healthSpec, act := fun g => health (g.text healthSpec "--project-root") },
    { spec := rotateLogsSpec
      act := fun g => rotateLogs ((g.text rotateLogsSpec "--log-file").getD "") (g.whole rotateLogsSpec "--keep") },
    { spec := backupSpec
      act := fun g => backup ((g.chosen backupSpec "--target").getD "") (g.text backupSpec "--project-root")
        (g.whole backupSpec "--keep") },
    { spec := rollbackSpec
      act := fun g => rollback
        { target := g.chosen rollbackSpec "--target", file := g.text rollbackSpec "--backup-file"
          root := g.text rollbackSpec "--project-root", list := g.isSet "--list", dryRun := g.isSet "--dry-run"
          yes := g.isSet "--yes", prune := g.isSet "--prune", keep := g.whole rollbackSpec "--keep" } }]

/-- Runs a command on the words behind its name. A wish for help comes before all complaints. -/
def Entry.run (e : Entry) (way : String) (words : List String) : Act Unit := do
  match e.spec.read words with
  | none => throw .usage
  | some g =>
    if g.isSet helpOption.name then say (e.spec.help way)
    else if e.spec.allows (← work) g then e.act g
    else throw .usage

/-- What the words of a group ask for: its help, or a command with the words behind it. -/
inductive Wish where
  | help
  | command (name : String) (words : List String)

def wish? : List String → Option Wish
  | [] => none
  | "--" :: name :: words => some (.command name words)
  | word :: rest =>
    if word == helpOption.name then match wish? rest with
      | some _ => some .help
      | none => if rest.isEmpty || rest == ["--"] then some .help else none
    else if isOption word then none
    else some (.command word rest)

def inGroup (way about : String) (commands : List (String × String))
    (run : String → List String → Act Unit) (words : List String) : Act Unit := do
  if words.isEmpty then say (groupHelp way about commands)
  else match wish? words with
    | none => throw .usage
    | some .help => say (groupHelp way about commands)
    | some (.command name rest) => run name rest

def upkeepAbout : String := "Operational maintenance utilities."

def upkeep : List String → Act Unit :=
  let way := programName ++ " ops"
  inGroup way upkeepAbout (upkeepEntries.map fun e => (e.spec.name, e.spec.about)) fun name words =>
    match upkeepEntries.find? (·.spec.name == name) with
    | some e => e.run way words
    | none => throw .usage

def commandOf : List String → Act Unit :=
  inGroup programName "NSSS - Neuro-Symbolic Software Security CLI"
    [("ops", upkeepAbout), (scanSpec.name, scanSpec.about)] fun name words =>
    if name == scanSpec.name then scanEntry.run programName words
    else if name == "ops" then upkeep words
    else throw .usage

/-- The lines of an input; what is behind the last line end is a line if it is not empty. -/
def inputLines (s : String) : List String :=
  let l := Text.split (Text.replace (Text.replace s "\r\n" "\n") "\r" "\n") "\n"
  if l.getLast? == some "" then l.dropLast else l

def runLine (h : Host) (words : List String) (input : String) : Ending × Host :=
  execute (commandOf words) { h with input := inputLines input }

end SecScan.Command
