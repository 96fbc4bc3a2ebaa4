import SecScan.Value.Access
import SecScan.Value.Fields

/-! Settings taken from the environment, and other programs with what comes of running them. -/
namespace SecScan

abbrev Environment := List (String × String)

/-- A variable that is set and not empty. -/
def Environment.get? (e : Environment) (name : String) : Option String := (e.lookup name).filter (· != "")

inductive Outcome where
  | missing
  | timedOut
  | failed
  | ended (output errors code : Value)

namespace Outcome

/-- A prepared outcome: a word for what went wrong, the output, or both streams and the code. -/
def ofValue : Value → Outcome
  | .text "missing" => .missing
  | .text "timeout" => .timedOut
  | .text "fail" => .failed
  | .text s => .ended (.text s) .null (.int 0)
  | v => .ended (v.sub "stdout") (v.sub "stderr") (v.getD "code" (.int 0))

end Outcome

/-- Programs with the ways in which they are going to end, and the commands that were started. -/
structure Programs where
  outcomes : List (String × List Outcome) := []
  started : List (List String) := []

namespace Programs

def run (p : Programs) (command : List String) : Outcome × Programs :=
  let name := command.headD ""
  let p := { p with started := p.started ++ [command] }
  match p.outcomes.lookup name with
  | some (o :: rest) => (o, { p with outcomes := putField name rest p.outcomes })
  | _ => (.missing, p)

end Programs

end SecScan
