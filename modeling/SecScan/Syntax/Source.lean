import SecScan.Syntax.Render

/-! Source text of statements and modules, in one fixed layout. -/
namespace SecScan.Syntax

def Expr.source (e : Expr) : Try String := e.render false .test

variable (depth : Nat)

def indented (s : String) : String := Text.repeated depth "    " ++ s

def Alias.source (a : Alias) : String :=
  match a.asName with
  | none => a.name
  | some "" => a.name
  | some n => a.name ++ " as " ++ n

def WithItem.source (i : WithItem) : Try String := do
  return (← i.context.source) ++ (← renderOpt false " as " i.vars)

mutual

def Pattern.render (p : Precedence) : Pattern → Try String
  | .value _ e => e.source
  | .singleton _ v => .ok (constantText false v)
  | .sequence _ ps => do return "[" ++ commas (← renderPatterns .test ps) ++ "]"
  | .mapping _ keys ps rest => do
    let pairs := ((← renderAll false .test keys).zip (← renderPatterns .test ps)).map fun (k, q) => k ++ ": " ++ q
    let others := match rest with
      | none => []
      | some n => ["**" ++ n]
    return braces (commas (pairs ++ others))
  | .cls _ c ps attrs attrPs => do
    let named := (attrs.zip (← renderPatterns .test attrPs)).map fun (a, q) => a ++ "=" ++ q
    return (← c.render false .atom) ++ "(" ++ commas ((← renderPatterns .test ps) ++ named) ++ ")"
  | .star _ n => .ok ("*" ++ n.getD "_")
  | .capture _ _ none => .ok "_"
  | .capture _ none (some n) => .ok n
  | .capture _ (some q) (some n) => do
    return parens (Precedence.test < p) ((← q.render .bitOr) ++ " as " ++ n)
  | .anyOf _ ps => do
    return parens (Precedence.bitOr < p) (String.intercalate " | " (← renderPatterns Precedence.bitOr.next ps))

def renderPatterns (p : Precedence) : List Pattern → Try (List String)
  | [] => .ok []
  | q :: qs => do return (← q.render p) :: (← renderPatterns p qs)

end

def typeNote : Option String → String
  | none => ""
  | some c => " # type: " ++ c

def docLine (s : String) (kind : Option String) : String :=
  indented depth ((if kind == some "u" then "u" else "") ++ quoteSparingly tripleQuotes s)

/-- The lines of a definition's body: a leading text is its documentation. -/
def documented (body : List Stmt) (lines : List String) : List String :=
  match body with
  | .expr _ (.constant _ (.text s) kind) :: _ => docLine depth s kind :: lines.tail
  | _ => lines

def decoratorLines (es : List Expr) : Try (List String) :=
  es.mapM fun e => do return indented depth ("@" ++ (← e.source))

def targetText : List Expr → Try String
  | [] => .ok ""
  | t :: ts => do return (← t.render false .tuple) ++ " = " ++ (← targetText ts)

def isName : Expr → Bool
  | .name .. => true
  | _ => false

/-- A heading line over an indented block, or nothing where the block is empty. -/
def optBlock (head : String) (body : List String) : List String :=
  if body.isEmpty then [] else indented depth head :: body

def raiseText : Option Expr → Option Expr → Try String
  | none, none => .ok "raise"
  | none, some _ => .error (.invalid none)
  | some e, cause => do return "raise " ++ (← e.source) ++ (← renderOpt false " from " cause)

mutual

/-- The lines of a statement at an indentation depth. Definitions come after an empty line. -/
def Stmt.lines (depth : Nat) : Stmt → Try (List String)
  | .funcDef _ isAsync name args body decorators returns note => do
    let head := (if isAsync then "async def " else "def ") ++ name ++ "(" ++ (← args.render false)
      ++ ")" ++ (← renderOpt false " -> " returns) ++ ":" ++ typeNote note
    return "" :: (← decoratorLines depth decorators) ++ indented depth head ::
      documented (depth + 1) body (← blockLines (depth + 1) body)
  | .classDef _ name bases keywords body decorators => do
    let supers := commas ((← renderAll false .test bases) ++ (← renderKeywords false keywords))
    let bare := bases.isEmpty && keywords.isEmpty
    let head := "class " ++ name ++ parens (!bare) supers ++ ":"
    return "" :: (← decoratorLines depth decorators) ++ indented depth head ::
      documented (depth + 1) body (← blockLines (depth + 1) body)
  | .ret _ v => do return [indented depth ("return" ++ (← renderOpt false " " v))]
  | .delete _ ts => do return [indented depth ("del " ++ commas (← renderAll false .test ts))]
  | .assign _ ts v note => do
    return [indented depth ((← targetText ts) ++ (← v.source) ++ typeNote note)]
  | .augAssign _ t op v => do
    return [indented depth ((← t.source) ++ " " ++ op.sign ++ "= " ++ (← v.source))]
  | .annAssign _ t h v simple => do
    return [indented depth (parens (!simple && isName t) (← t.source) ++ ": " ++ (← h.source)
      ++ (← renderOpt false " = " v))]
  | .forLoop _ isAsync t i body orelse note => do
    let head := (if isAsync then "async for " else "for ") ++ (← t.render false .tuple) ++ " in "
      ++ (← i.source) ++ ":" ++ typeNote note
    return indented depth head :: (← blockLines (depth + 1) body)
      ++ optBlock depth "else:" (← blockLines (depth + 1) orelse)
  | .whileLoop _ t body orelse => do
    return indented depth ("while " ++ (← t.source) ++ ":") :: (← blockLines (depth + 1) body)
      ++ optBlock depth "else:" (← blockLines (depth + 1) orelse)
  | .cond _ t body orelse => do
    return indented depth ("if " ++ (← t.source) ++ ":") :: (← blockLines (depth + 1) body)
      ++ (← elseLines depth orelse)
  | .withBlock _ isAsync items body note => do
    let head := (if isAsync then "async with " else "with ")
      ++ commas (← items.mapM WithItem.source) ++ ":" ++ typeNote note
    return indented depth head :: (← blockLines (depth + 1) body)
  | .matchOn _ s cases => do
    return indented depth ("match " ++ (← s.source) ++ ":") :: (← caseLines (depth + 1) cases)
  | .raise _ e cause => do return [indented depth (← raiseText e cause)]
  | .tryBlock _ star body handlers orelse final => do
    return indented depth "try:" :: (← blockLines (depth + 1) body) ++ (← handlerLines depth star handlers)
      ++ optBlock depth "else:" (← blockLines (depth + 1) orelse)
      ++ optBlock depth "finally:" (← blockLines (depth + 1) final)
  | .assert _ t m => do
    return [indented depth ("assert " ++ (← t.source) ++ (← renderOpt false ", " m))]
  | .importNames _ ns => .ok [indented depth ("import " ++ commas (ns.map Alias.source))]
  | .importFrom _ m ns level =>
    .ok [indented depth ("from " ++ Text.repeated (level.getD 0) "." ++ m.getD "" ++ " import "
      ++ commas (ns.map Alias.source))]
  | .globalNames _ ns => .ok [indented depth ("global " ++ commas ns)]
  | .nonlocalNames _ ns => .ok [indented depth ("nonlocal " ++ commas ns)]
  | .expr _ e => do return [indented depth (← e.render false .yield)]
  | .pass _ => .ok [indented depth "pass"]
  | .breakLoop _ => .ok [indented depth "break"]
  | .continueLoop _ => .ok [indented depth "continue"]

def blockLines (depth : Nat) : List Stmt → Try (List String)
  | [] => .ok []
  | s :: ss => do return (← s.lines depth) ++ (← blockLines depth ss)

/-- What follows the body of a condition: a lone condition continues the chain. -/
def elseLines (depth : Nat) : List Stmt → Try (List String)
  | [] => .ok []
  | [.cond _ t body orelse] => do
    return indented depth ("elif " ++ (← t.source) ++ ":") :: (← blockLines (depth + 1) body)
      ++ (← elseLines depth orelse)
  | s :: ss => do
    return indented depth "else:" :: (← s.lines (depth + 1)) ++ (← blockLines (depth + 1) ss)

def handlerLines (depth : Nat) (star : Bool) : List Handler → Try (List String)
  | [] => .ok []
  | h :: hs => do return (← h.lines depth star) ++ (← handlerLines depth star hs)

def Handler.lines (depth : Nat) (star : Bool) : Handler → Try (List String)
  | .mk _ type name body => do
    let head := (if star then "except*" else "except") ++ (← renderOpt false " " type)
      ++ (match name with | none => "" | some n => " as " ++ n) ++ ":"
    return indented depth head :: (← blockLines (depth + 1) body)

def caseLines (depth : Nat) : List MatchCase → Try (List String)
  | [] => .ok []
  | c :: cs => do return (← c.lines depth) ++ (← caseLines depth cs)

def MatchCase.lines (depth : Nat) : MatchCase → Try (List String)
  | .mk p guard body => do
    let head := "case " ++ (← p.render .test) ++ (← renderOpt false " if " guard) ++ ":"
    return indented depth head :: (← blockLines (depth + 1) body)

end

/-- A source does not start with the empty line of its first definition. -/
def joinLines (lines : List String) : String := String.intercalate "\n" (match lines with | "" :: r => r | l => l)

def Module.source (m : Module) : Try String := do
  return joinLines (documented 0 m.body (← blockLines 0 m.body))

end SecScan.Syntax
