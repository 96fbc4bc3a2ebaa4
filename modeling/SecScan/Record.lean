import SecScan.Fault
import SecScan.Value

/-! Records with declared fields. -/
namespace SecScan

/-- The fields of a record, each with what it holds unless told, and other names for fields. -/
structure Schema where
  fields : Fields
  aliases : List (String × String) := []

namespace Schema

def given? (s : Schema) (entries : Fields) (f : String) : Option Value :=
  (entries.reverse.find? fun e => e.1 == f || s.aliases.lookup e.1 == some f).map (·.2)

def fill (s : Schema) (v : Value) : Value :=
  let entries := v.fields
  .obj (s.fields.map fun (f, d) => (f, (s.given? entries f).getD d))

def reserved? : String × Value → Option Fault
  | ("__class__", _) => some .wrongKind
  | ("__dict__", .map _) => none
  | ("__dict__", _) => some .wrongKind
  | ("__weakref__", _) => some .noField
  | _ => none

/-- A record is made of a map only, and some names are no fields. -/
def read (s : Schema) (invalid : Fault) (v : Value) : Try Value :=
  match v with
  | .map _ =>
    if v.has "self" then .error .wrongKind
    else match v.fields.findSome? reserved? with
      | some e => .error e
      | none => .ok (s.fill v)
  | _ => .error invalid

end Schema

end SecScan
