import SecScan.Data

/-! Log records as JSON documents. -/
namespace SecScan.Telemetry

/-- A record: its own attributes, and what callers attached to it, which may overrule them. -/
structure LogRecord where
  message : Value
  args : List Value := []
  level : Value := .int 20
  logger : Value := .text "l"
  line : Value := .int 1
  function : Value := .text "f"
  module : Value := .text "mod"
  created : Value := .int 0
  extra : Fields := []

def levels : List (Value × String) :=
  [(.int 50, "CRITICAL"), (.int 40, "ERROR"), (.int 30, "WARNING"), (.int 20, "INFO"), (.int 10, "DEBUG"),
   (.int 0, "NOTSET")]

def levelNumbers : List (String × Int) :=
  [("CRITICAL", 50), ("FATAL", 50), ("ERROR", 40), ("WARN", 30), ("WARNING", 30), ("INFO", 20), ("DEBUG", 10),
   ("NOTSET", 0)]

/-- The name of a level; the name of a level given by name is its number. -/
def levelName (v : Value) : Try Value := do
  v.requireFixed
  return match Value.under? v levels, v.text?.bind (List.lookup · levelNumbers) with
    | some name, _ => .text name
    | none, some n => .int n
    | none, none => .text ("Level " ++ v.display)

namespace LogRecord

/-- Attributes that describe the record itself and are not repeated among the attached ones. -/
def ownAttributes : List String := Text.words
  "args asctime created exc_info exc_text filename funcName levelname levelno lineno module msecs msg name pathname
   process processName relativeCreated stack_info thread threadName taskName"

variable (r : LogRecord)

def overruled (name : String) (own : Value) : Value := (r.extra.lookup name).getD own

def filling : List Value → Text.Filling
  | [.map (e :: l)] => .single (.map (e :: l))
  | l => .ordered l

def text : Try String := do
  if (r.extra.lookup "getMessage").isSome then throw .wrongKind
  let format := (r.overruled "msg" r.message).display
  match r.extra.lookup "args" with
  | some v => if v.truthy then Text.fillPlaces format (.single v) else return format
  | none => if r.args.isEmpty then return format else Text.fillPlaces format (filling r.args)

/-- What is said of an exception: a list of its kind, itself and its trace. Only the absence of one can
be told. -/
def exceptionText (v : Value) : Try String :=
  match v with
  | .list (_ :: e :: trace :: _) =>
    if !trace.isNull then .error (trace.lacks "tb_frame")
    else if !e.isNull then .error (e.lacks "__suppress_context__")
    else .ok "NoneType: None"
  | .list _ => .error .outOfRange
  | .map _ => .error .noKey
  | .text s => if 2 < s.length then .error (v.lacks "tb_frame") else .error .outOfRange
  | _ => .error .wrongKind

def value : Try Value := do
  let level ← levelName r.level
  let time ← Time.stampOf (← Time.instantOf (r.overruled "created" r.created))
  let own : Fields :=
    [("timestamp", .text time), ("level", r.overruled "levelname" level),
     ("logger", r.overruled "name" r.logger), ("message", .text (← r.text)),
     ("module", r.overruled "module" r.module), ("function", r.overruled "funcName" r.function),
     ("line", r.overruled "lineno" r.line)]
  let failure := (r.extra.lookup "exc_info").getD .null
  let own ← if failure.truthy then do pure (own ++ [("exception", .text (← exceptionText failure))]) else pure own
  let attached := r.extra.filter fun (k, _) => !(own.any (·.1 == k)) && !ownAttributes.contains k
  return .obj (own ++ attached)

end LogRecord

end SecScan.Telemetry
