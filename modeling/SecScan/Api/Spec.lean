import SecScan.Data

/-! Descriptions of web interfaces: what requests and responses look like. -/
namespace SecScan.Api

structure Spec where
  version : String
  paths : Value := .obj []
  schemas : Value := .obj []
  servers : Value := .list []

namespace Spec

def value (s : Spec) : Value :=
  .obj [("version", .text s.version), ("paths", s.paths), ("schemas", s.schemas), ("servers", s.servers)]

/-- A description in one of its two formats; other documents are none. -/
def ofValue? (v : Value) : Option Spec :=
  if v.has "openapi" || v.has "swagger" then
    let version := if (v.sub "openapi").truthy then v.sub "openapi" else v.sub "swagger"
    let schemas := match v.get? "components" with
      | some c@(.map _) => c.getD "schemas" (.obj [])
      | _ => match v.get? "definitions" with
        | some d@(.map _) => d
        | _ => .obj []
    some { version := version.display, paths := v.getD "paths" (.obj []), schemas
           servers := v.getD "servers" (.list []) }
  else none

def read? (yaml : String → Try Value) (text : String) : Option Spec :=
  match Json.readIfJson text with
  | .ok (some v) => ofValue? v
  | .ok none => (yaml text).toOption.bind ofValue?
  | .error _ => none

end Spec

/-! Schemas -/

def referencePrefixes : List String := ["#/components/schemas/", "#/definitions/"]

/-- The name of the schema that a reference is to; other references lead nowhere. -/
def schemaName? (ref : String) : Option String :=
  if referencePrefixes.any (Text.hasPrefix ref) then (Text.split ref "/").getLast? else none

namespace Spec

def referred (s : Spec) (ref : Value) : Try Value :=
  match ref, s.schemas with
  | .text ref, .map es => .ok (((schemaName? ref).bind (Value.lookup es)).getD (.obj []))
  | .text ref, _ => if (schemaName? ref).isNone then .ok (.obj []) else .error .noField
  | _, _ => .error .noField

/-- A schema with its references replaced, also those inside its properties. As many calls as given may stand
in each other; a reference takes two. -/
def expandIn (s : Spec) : Nat → Value → Try Value
  | 0, _ => .error .endless
  | n + 1, .map es =>
    match Value.lookup es "$ref", Value.lookup es "properties", n with
    | some _, _, 0 => .error .endless
    | some ref, _, n + 1 => s.referred ref >>= s.expandIn n
    | none, some (.map ps), n => do
      let expanded ← ps.mapM fun p => (p.1, ·) <$> s.expandIn n p.2
      return .map (Value.putText "properties" (.map expanded) es)
    | none, some _, _ => .error .noField
    | none, none, _ => .ok (.map es)
  | _, v =>
    if !v.truthy then .ok (.obj [])
    else do
      let _ ← v.mentioned? "$ref"
      let _ ← v.mentioned? "properties"
      return v

/-- How many calls may stand in each other. -/
def stackDepth : Nat := 991

variable (s : Spec)

def expand (schema : Value) : Try Value := s.expandIn stackDepth schema

/-- Goes down along keys as long as there is something. -/
def descend (v : Value) : List String → Try (Option Value)
  | [] => .ok (some v)
  | k :: ks => match v with
    | .map _ => let x := v.sub k; if x.truthy then descend x ks else .ok none
    | _ => .error .noField

def contentSchema (body : Value) : Try (Option Value) := do
  unless body.isMap do throw .noField
  match body.getD "content" (.obj []) with
  | c@(.map _) => match ← descend c ["application/json"] with
    | some j => if j.isMap then return some (← s.expand (j.sub "schema")) else throw .noField
    | none => return none
  | _ => throw .noField

variable (path method : Value)

def operation? : Try (Option Value) := do
  match s.paths with
  | .map es =>
    path.requireFixed
    match (Value.under? path es).filter (·.truthy) with
    | none => return none
    | some item => descend item [Text.lower (← method.asText "lower")]
  | v => throw (v.lacks "get")

def requestSchema? : Try (Option Value) := do
  match ← s.operation? path method with
  | none => return none
  | some o => match ← descend o ["requestBody"] with
    | some b => s.contentSchema b
    | none => return none

def responseSchema? (status : Value := .text "200") : Try (Option Value) := do
  match ← s.operation? path method with
  | none => return none
  | some o =>
    unless o.isMap do throw .noField
    match ← descend (o.getD "responses" (.obj [])) [status.display] with
    | some r => s.contentSchema r
    | none => return none

end Spec

end SecScan.Api
