import SecScan.Knowledge.Library
import SecScan.Llm.Answer

/-! Libraries of which nothing is known, as a model describes them. -/
namespace SecScan.Knowledge

/-- What is asked about a library, with parts of its documentation and its source. -/
def analystQuestion (library version documentation source : Value) : Try String := do
  let part (v : Value) (n : Int) (before after : String) : Try (List String) :=
    if v.truthy then do return [before ++ (← v.upTo (.int n)).display ++ after] else .ok []
  return "\n".intercalate <| ["Analyze the security profile for Python library: **" ++ library.display ++ "** (version "
      ++ version.display ++ ")"]
    ++ (← part documentation 5000 "\n## Documentation:\n" "")
    ++ (← part source 3000 ("\n## Source Code Sample:\n" ++ Llm.fence ++ "python\n") ("\n" ++ Llm.fence))
    ++ (if documentation.truthy || source.truthy then [] else
      ["\nNo documentation or source code provided. Use your knowledge of common Python libraries "
        ++ "to infer security-relevant functions."])
    ++ ["\nIdentify the most security-critical functions (sources, sinks, sanitizers) and return "
      ++ "the JSON analysis."]

def bareLibrary (library version : Value) : Library :=
  { name := library, ecosystem := .text "pypi", releases := .known [{ version }] }

/-- A function as the model describes it; one with an unknown label is passed over. -/
def describedFunction? (v : Value) : Try (Option Function) := do
  let label ← (← v.field "label" (.text "none")).asText "lower"
  return (Label.ofText? (Text.lower label)).map fun label =>
    { name := v.getD "name" (.text "unknown"), label, description := v.sub "description"
      cwe := v.sub "cwe_id", returnsTainted := v.getD "returns_tainted" (.bool false) }

def describedLibrary (library version maxFunctions analysis : Value) : Try Library := do
  let ecosystem ← analysis.field "ecosystem" (.text "pypi")
  let description := analysis.sub "description"
  let l : Library := { name := library, ecosystem }
  if analysis.flag "is_c_extension" then
    return { l with
      description := .text ((description.orElse library).display ++ " (C-extension - not supported by AI fallback)")
      releases := .known [{ version }] }
  let items ← (← (analysis.getD "functions" (.list [])).upTo maxFunctions).each
  let functions := (← items.mapM describedFunction?).filterMap id
  return { l with description, releases := .known [{ version, functions }] }

/-- The analysis in an answer. A model that fails, or answers with no text, describes nothing; nor
does a text that is no JSON. -/
def analysisOf (answer : Try Value) : Value :=
  match answer with
  | .ok (.text s) => (Json.read (Llm.unfenceOnce s)).toOption.getD (.obj [])
  | _ => .obj [("ecosystem", .text "pypi"), ("is_c_extension", .bool false), ("functions", .list [])]

def shadowLibrary (library version documentation source maxFunctions : Value) (answer : Try Value) : Try Library := do
  unless library.truthy do throw (.invalid (some "library_name cannot be empty"))
  unless version.truthy do throw (.invalid (some "version cannot be empty"))
  let _ ← analystQuestion library version documentation source
  describedLibrary library version maxFunctions (analysisOf answer)

end SecScan.Knowledge
