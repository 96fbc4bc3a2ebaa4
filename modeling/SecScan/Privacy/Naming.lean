import SecScan.Syntax.Tree

/-! The table of a masking: each masked name tells the kind of what it hides, and one name keeps one
masked name. -/
namespace SecScan.Privacy

/-! The names that every Python program has without defining them. -/

def builtinNames : List String :=
  ["ArithmeticError", "AssertionError", "AttributeError", "BaseException", "BaseExceptionGroup",
    "BlockingIOError", "BrokenPipeError", "BufferError", "BytesWarning", "ChildProcessError",
    "ConnectionAbortedError", "ConnectionError", "ConnectionRefusedError", "ConnectionResetError",
    "DeprecationWarning", "EOFError", "Ellipsis", "EncodingWarning", "EnvironmentError",
    "Exception", "ExceptionGroup", "False", "FileExistsError", "FileNotFoundError",
    "FloatingPointError", "FutureWarning", "GeneratorExit", "IOError", "ImportError",
    "ImportWarning", "IndentationError", "IndexError", "InterruptedError", "IsADirectoryError",
    "KeyError", "KeyboardInterrupt", "LookupError", "MemoryError", "ModuleNotFoundError",
    "NameError", "None", "NotADirectoryError", "NotImplemented", "NotImplementedError", "OSError",
    "OverflowError", "PendingDeprecationWarning", "PermissionError", "ProcessLookupError",
    "RecursionError", "ReferenceError", "ResourceWarning", "RuntimeError", "RuntimeWarning",
    "StopAsyncIteration", "StopIteration", "SyntaxError", "SyntaxWarning", "SystemError",
    "SystemExit", "TabError", "TimeoutError", "True", "TypeError", "UnboundLocalError",
    "UnicodeDecodeError", "UnicodeEncodeError", "UnicodeError", "UnicodeTranslateError",
    "UnicodeWarning", "UserWarning", "ValueError", "Warning", "ZeroDivisionError",
    "__build_class__", "__debug__", "__doc__", "__import__", "__loader__", "__name__",
    "__package__", "__spec__", "abs", "aiter", "all", "anext", "any", "ascii", "bin", "bool",
    "breakpoint", "bytearray", "bytes", "callable", "chr", "classmethod", "compile", "complex",
    "copyright", "credits", "delattr", "dict", "dir", "divmod", "enumerate", "eval", "exec",
    "exit", "filter", "float", "format", "frozenset", "getattr", "globals", "hasattr", "hash",
    "help", "hex", "id", "input", "int", "isinstance", "issubclass", "iter", "len", "license",
    "list", "locals", "map", "max", "memoryview", "min", "next", "object", "oct", "open", "ord",
    "pow", "print", "property", "quit", "range", "repr", "reversed", "round", "set", "setattr",
    "slice", "sorted", "staticmethod", "str", "sum", "super", "tuple", "type", "vars", "zip"]

open Syntax

structure Policy where
  preserved : List String
  sensitive : List String := []

def customaryNames : List String := ["self", "cls", "args", "kwargs", "_"]

def constantNames : List String := ["True", "False", "None"]

def Policy.of (preserveBuiltins : Bool) (sensitive : List String) : Policy :=
  { preserved := (if preserveBuiltins then builtinNames else []) ++ customaryNames, sensitive }

structure Table where
  /-- Masked name and the name it hides, in the order of entry. -/
  entries : List (String × String) := []
  counters : List (String × Nat) := []
  types : List (String × String) := []
  deriving Inhabited

abbrev Mask := StateM Table

def Table.masked? (t : Table) (name : String) : Option String := (t.entries.find? fun e => e.2 == name).map (·.1)

/-- The first part of a new masked name: the known type wins, and what the user can reach is marked. -/
def Table.label (p : Policy) (t : Table) (name label : String) : String :=
  let label := (t.types.lookup name).getD label
  let label := if p.sensitive.contains name && !Text.hasPrefix label "USER_" then "USER_" ++ label
    else label
  Text.upper label

/-- The masked name of a name, which is made up at its first use. -/
def maskName (p : Policy) (name label : String) : Mask String := do
  if p.preserved.contains name then return name
  let t ← get
  match t.masked? name with
  | some m => return m
  | none =>
    let label := t.label p name label
    let count := (t.counters.lookup label).getD 0 + 1
    let masked := label ++ "_" ++ toString count
    set { t with entries := t.entries ++ [(masked, name)], counters := putField label count t.counters }
    return masked

def setType (name label : String) : Mask Unit := modify fun t => { t with types := putField name label t.types }

/-- An earlier guess stands unless it says nothing. -/
def suggestType (name label : String) : Mask Unit := do
  match (← get).types.lookup name with
  | none => setType name label
  | some "VAR" => setType name label
  | some _ => return ()

def typeLabels : List (String × String) :=
  [("str", "STR"), ("int", "INT"), ("float", "FLOAT"), ("bool", "BOOL"), ("list", "LIST"),
    ("List", "LIST"), ("dict", "DICT"), ("Dict", "DICT"), ("set", "SET"), ("Set", "SET"),
    ("tuple", "TUPLE"), ("Tuple", "TUPLE")]

def labelOfType (name : String) : String := (typeLabels.lookup name).getD "OBJ"

def labelOfHint : Expr → String
  | .name _ n _ => labelOfType n
  | .constant _ (.text s) _ => labelOfType s
  | .subscript _ (.name _ n _) _ _ => labelOfType n
  | _ => "OBJ"

def labelOfValue : Expr → String
  | .constant _ (.text _) _ => "STR"
  | .constant _ (.int _) _ => "INT"
  | .constant _ (.bool _) _ => "INT"
  | .constant _ (.float _) _ => "FLOAT"
  | .list .. => "LIST"
  | .dict .. => "DICT"
  | .set .. => "SET"
  | .tuple .. => "TUPLE"
  | _ => "VAR"

end SecScan.Privacy
