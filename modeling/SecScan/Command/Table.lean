import SecScan.Command.Options

/-! The commands and what they are called with. -/
namespace SecScan.Command

def directory : PathRule := { present := true, files := false }

def rootOption (about : String) (usual : Option String := some ".") : Opt :=
  { name := "--project-root", takes := .path directory, about, usual }

def keepOption (usual about : String) : Opt :=
  { name := "--keep", takes := .whole, about, usual := some usual, told := true }

def targetOption (about : String) (usual : Option String) : Opt :=
  { name := "--target", takes := .choice ["baseline", "graph", "llm-cache", "feedback", "all"], about, usual }

def scanSpec : Spec where
  name := "scan"
  about := "Scan a target directory or file."
  argument := some ("TARGET_PATH", { present := true })
  options :=
    [{ name := "--mode", takes := .choice ["ci", "audit", "baseline"], about := "Operation mode."
       usual := some "audit" },
      { name := "--baseline", takes := .nothing, about := "Generate baseline file from current findings." },
      { name := "--baseline-only", takes := .nothing, about := "Suppress existing findings using baseline." },
      { name := "--baseline-reset", takes := .nothing, about := "Regenerate baseline file (overwrite existing)." },
      { name := "--format", takes := .choice ["json", "text"], about := "Output format.", usual := some "text" },
      { name := "--report-type", takes := .choice ["markdown", "sarif", "ir", "graph", "debug"]
        about := "Report types to generate (repeatable).", gathers := true },
      { name := "--emit-ir", takes := .nothing, about := "Include parsed IR in output JSON." },
      { name := "--strip-docstrings", takes := .nothing, about := "Strip docstrings from IR." },
      { name := "--diff", takes := .nothing
        about := "Run incrementally on changed files and dependencies only." },
      { name := "--report-dir", takes := .text, about := "Directory to save reports.", usual := some "." }]

def clearCacheSpec : Spec where
  name := "clear-cache"
  about := "Clear persistence caches for LLM and IR graphs."
  options :=
    [{ name := "--llm-cache", takes := .switch "--no-llm-cache", about := "Clear the LLM response cache."
       usual := some "on" },
      { name := "--graph-cache", takes := .switch "--no-graph-cache"
        about := "Clear the IR graph cache for the project.", usual := some "on" },
      rootOption "Project root used for graph cache lookup."]

def graphExportSpec : Spec where
  name := "graph-export"
  about := "Export the persisted IR graph cache to a file."
  options :=
    [rootOption "Project root used for graph cache lookup." none,
      { name := "--output", takes := .path { dirs := false }, about := "Output path for exported graph cache."
        usual := some "graph_export.jsonl" }]

def graphImportSpec : Spec where
  name := "graph-import"
  about := "Import a persisted IR graph cache file into this project."
  options :=
    [rootOption "Project root used for graph cache lookup." none,
      { name := "--input", takes := .path { present := true, dirs := false }
        about := "Input graph cache file to import.", required := true }]

def healthSpec : Spec where
  name := "health"
  about := "Run a basic health check of local NSSS state."
  options := [rootOption "Project root used for graph cache lookup."]

def rotateLogsSpec : Spec where
  name := "rotate-logs"
  about := "Rotate a local NSSS log file."
  options :=
    [{ name := "--log-file", takes := .path { dirs := false }, about := "Log file to rotate."
       usual := some ".nsss/logs/nsss.log" },
      keepOption "5" "Number of rotated logs to keep."]

def backupSpec : Spec where
  name := "backup"
  about := "Create backups of NSSS state files."
  options :=
    [targetOption "Target to backup." (some "all"), rootOption "Project root directory.",
      keepOption "10" "Number of backups to keep (older ones pruned)."]

def rollbackSpec : Spec where
  name := "rollback"
  about := "Rollback NSSS state files to a previous backup."
  options :=
    [targetOption "Target to rollback (required unless --list)." none,
      { name := "--backup-file", takes := .path { present := true, dirs := false }
        about := "Specific backup file to restore from." },
      rootOption "Project root directory.",
      { name := "--list", takes := .nothing, about := "List available backups." },
      { name := "--dry-run", takes := .nothing, about := "Show what would be restored without making changes." },
      { name := "--yes", takes := .nothing, about := "Skip confirmation prompt." },
      { name := "--prune", takes := .nothing, about := "Prune old backups instead of restoring." },
      keepOption "10" "Number of backups to keep when pruning."]

end SecScan.Command
