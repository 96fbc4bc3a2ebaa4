import SecScan.Fault
import SecScan.Value.Fields

/-! Components driven by scripts. A script is a list of commands, each a name with its arguments;
every command has an answer, and the state behind them can be looked at in between. -/
namespace SecScan

abbrev Answer := Try Value

/-- The commands of a component with state `σ`. A command is told the time and may let it pass. Some
states cannot be shown. -/
structure Console (σ : Type) where
  step : σ → Float → String → List Value → Answer × σ × Float
  view : σ → Option Answer := fun _ => none

/-- The fault of a command that is not known, or that is not given what it needs. -/
def misused (known : List String) (name : String) : Fault := if known.contains name then .wrongKind else .noKey

namespace Console

variable {σ : Type}

def timeless (step : σ → Float → String → List Value → Answer × σ)
    (view : σ → Option Value := fun _ => none) : Console σ :=
  { step := fun s t name args => let (r, s) := step s t name args; (r, s, t)
    view := fun s => (view s).map .ok }

variable (c : Console σ)

def showing (view : σ → Answer) : Console σ := { c with view := fun s => some (view s) }

def taking (counts : List (String × Nat × Nat)) : Console σ :=
  { c with step := fun s t name args => match counts.lookup name with
      | some (least, most) => if args.length < least || most < args.length then (.error .wrongKind, s, t)
        else c.step s t name args
      | none => c.step s t name args }

/-- Commands are arrays; the command `clock` of every component only lets time pass. -/
def command (s : σ) (t : Float) (x : Value) : Answer × σ × Float :=
  match x.items with
  | [.text "clock", n] => (.ok .null, s, t + (n.number?.getD 0.0))
  | .text name :: args => c.step s t name args
  | _ => (.error .noKey, s, t)

def run (s : σ) (t : Float) : List Value → List (Answer × Option Answer)
  | [] => []
  | x :: rest => let (r, s, t) := c.command s t x; (r, c.view s) :: run s t rest

end Console

end SecScan
