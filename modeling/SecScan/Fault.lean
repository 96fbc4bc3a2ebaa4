/-! What can go wrong when data does not have the shape or the content that is asked of it. -/
namespace SecScan

inductive Fault where
  | noField (text : Option String := none)
  /-- A value is of a kind that the operation is not defined for. -/
  | wrongKind (text : Option String := none)
  | noKey (text : Option String := none)
  | outOfRange (text : Option String := none)
  /-- A value is of the right kind and still not acceptable. -/
  | invalid (message : Option String := none)
  | notRecord
  | failed (message : Option String := none)
  | missing (message : Option String := none)
  | exists
  | notInstalled (message : Option String := none)
  | unstorable (message : Option String := none)
  | tooLarge (message : Option String := none)
  | dividedByZero (message : Option String := none)
  | systemRefused (message : Option String := none)
  | programFailed
  | timedOut
  | endless
  | isDirectory
  | notDirectory
  | sameFile
  | notJson
  | longNumber (digits : Nat)
  /-- A document is nested deeper than is read, at last in a map or a list. -/
  | tooDeep (inMap : Bool)
  | notText
  /-- A reader of source text refused it, for the reason that it names. -/
  | unreadable (reason : String)
  deriving DecidableEq, Repr, Inhabited

abbrev Try := Except Fault

/-- A step that goes on from what came out; after a fault the state is kept. -/
def keeping {α β σ : Type} (s : σ) (r : Try α) (next : α → Try β × σ) : Try β × σ :=
  match r with
  | .ok a => next a
  | .error e => (.error e, s)

def Fault.message? : Fault → Option String
  | .invalid m | .failed m | .missing m | .notInstalled m | .unstorable m | .tooLarge m | .dividedByZero m
  | .systemRefused m => m
  | _ => none

def Fault.detail : Fault → String
  | .noField t | .wrongKind t | .noKey t | .outOfRange t => t.getD ""
  | .longNumber n => "Exceeds the limit (4300 digits) for integer string conversion: value has " ++ toString n
      ++ " digits; use sys.set_int_max_str_digits() to increase the limit"
  | .tooDeep inMap => "maximum recursion depth exceeded while decoding a JSON "
      ++ (if inMap then "object" else "array") ++ " from a unicode string"
  | f => f.message?.getD ""

end SecScan
