import SecScan.Syntax.Node

/-! Source text of expressions, with the parentheses that precedence asks for. -/
namespace SecScan.Syntax

open Text

/-! Chooses quotes for text literals so that as little as possible has to be escaped. -/

def allQuotes : List String := ["'", "\"", "\"\"\"", "'''"]

def tripleQuotes : List String := ["\"\"\"", "'''"]

/-- Escapes backslashes and what cannot be shown; line feeds and tabs only when asked. -/
def escapeSparingly (whitespace : Bool) (c : Char) : List Char :=
  if !whitespace && (c == '\n' || c == '\t') then [c]
  else escapeLiteral isPrintable '\\' c

def headOf (q : String) : Option Char := q.toList.head?

/-- The escaped text and the quotes that may surround it, the preferred one first. Where none of the
allowed quotes will do, the text is escaped in full for one of them. -/
def quotable (allowed : List String) (whitespace : Bool) (s : String) : String × List String :=
  let escaped := s.toList.flatMap (escapeSparingly whitespace)
  let text := String.ofList escaped
  let quotes := if escaped.contains '\n' then allowed.filter tripleQuotes.contains else allowed
  let quotes := quotes.filter fun q => !Text.holds text q
  match quotes with
  | [] =>
    let full := textLiteral s
    let q := take 1 full
    (String.ofList (full.toList.drop 1).dropLast, [(allowed.find? (holds · q)).getD q])
  | q :: qs =>
    match escaped.getLast? with
    | none => (text, q :: qs)
    | some last =>
      let clash (q : String) : Bool := headOf q == some last
      let sorted := (q :: qs).filter (!clash ·) ++ (q :: qs).filter clash
      if (sorted.head?.map clash).getD false then
        (String.ofList (escaped.dropLast ++ ['\\', last]), sorted)
      else (text, sorted)

/-- A text literal that needs no backslash if that can be avoided. -/
def quoteSparingly (allowed : List String) (s : String) : String :=
  let (text, quotes) := quotable allowed false s
  let q := quotes.headD "'"
  q ++ text ++ q

variable (s : String)

/-- Escapes a part of a text between triple single quotes. -/
def escapeInTriple : String := String.ofList (s.toList.flatMap (escapeLiteral isPrintable '\''))

def commonQuotes : List String → List (String × Bool) → Option (List String × List String)
  | quotes, [] => some ([], quotes)
  | quotes, (part, isText) :: rest =>
    let (text, new) := quotable quotes isText part
    if new.any quotes.contains then
      (commonQuotes new rest).map fun (texts, qs) => (text :: texts, qs)
    else none

/-- Joins the parts of a formatted text under quotes that suit all of them. The literal parts are
marked. -/
def quoteParts (parts : List (String × Bool)) : String :=
  match commonQuotes allQuotes parts with
  | some (texts, quotes) =>
    let q := quotes.headD "'"
    q ++ String.join texts ++ q
  | none => "'''" ++ String.join (parts.map fun p => escapeInTriple p.1) ++ "'''"

abbrev Precedence := Nat

namespace Precedence

def named : Precedence := 1
def tuple : Precedence := 2
def yield : Precedence := 3
def test : Precedence := 4
def or : Precedence := 5
def and : Precedence := 6
def not : Precedence := 7
def compare : Precedence := 8
def bitOr : Precedence := 9
def bitXor : Precedence := 10
def bitAnd : Precedence := 11
def shift : Precedence := 12
def arith : Precedence := 13
def term : Precedence := 14
def factor : Precedence := 15
def power : Precedence := 16
def await : Precedence := 17
def atom : Precedence := 18

def next (p : Precedence) : Precedence := min (p + 1) atom

end Precedence

def BoolOp.word : BoolOp → String
  | .and => "and"
  | .or => "or"

def BoolOp.precedence : BoolOp → Precedence
  | .and => .and
  | .or => .or

def BinOp.sign : BinOp → String
  | .add => "+" | .sub => "-" | .mult => "*" | .matMult => "@" | .div => "/" | .mod => "%"
  | .pow => "**" | .lShift => "<<" | .rShift => ">>" | .bitOr => "|" | .bitXor => "^"
  | .bitAnd => "&" | .floorDiv => "//"

def BinOp.precedence : BinOp → Precedence
  | .add | .sub => .arith
  | .mult | .matMult | .div | .mod | .floorDiv => .term
  | .pow => .power
  | .lShift | .rShift => .shift
  | .bitOr => .bitOr
  | .bitXor => .bitXor
  | .bitAnd => .bitAnd

def UnaryOp.sign : UnaryOp → String
  | .invert => "~" | .not => "not " | .plus => "+" | .minus => "-"

def UnaryOp.precedence : UnaryOp → Precedence
  | .not => .not
  | _ => .factor

def CompareOp.sign : CompareOp → String
  | .eq => "==" | .notEq => "!=" | .lt => "<" | .ltE => "<=" | .gt => ">" | .gtE => ">="
  | .same => "is" | .notSame => "is not" | .member => "in" | .notMember => "not in"

def parens (b : Bool) (s : String) : String := if b then "(" ++ s ++ ")" else s

def commas (l : List String) : String := String.intercalate ", " l

/-- Elements of a tuple: a single one keeps a comma. -/
def tupleItems : List String → String
  | [s] => s ++ ","
  | l => commas l

def doubleBraces : String := replace (replace s "\x7b" "\x7b\x7b") "\x7d" "\x7d\x7d"

def braces : String := "\x7b" ++ s ++ "\x7d"

/-- A number too large for a literal is written as one that overflows. -/
def overflowText : String := replace (replace s "inf" "1e309") "nan" "(1e309-1e309)"

def constantText (avoid : Bool) : Value → String
  | .float x => overflowText (Decimal.shortest x)
  | .complex re im => overflowText (complexLiteral re im)
  | .text s => if avoid then quoteSparingly allQuotes s else textLiteral s
  | .ellipsis => "..."
  | v => v.literal

/-- Parameters with their default values, which belong to the last ones, and the mark behind those
that are positional only. -/
def withDefaults (posOnly : Nat) (args defaults : List String) : List String :=
  let start := args.length - defaults.length
  (List.range args.length).zip args |>.map fun (i, a) =>
    let a := if start ≤ i then
        match defaults[i - start]? with
        | some d => a ++ "=" ++ d
        | none => a
      else a
    if i + 1 == posOnly then a ++ ", /" else a

def isWholeConstant : Expr → Bool
  | .constant _ (.int _) _ => true
  | .constant _ (.bool _) _ => true
  | _ => false

def isTextConstant : Expr → Bool
  | .constant .. => true
  | _ => false


/-- The text of a replacement field may hold no backslash. -/
def replacementField (expr : String) (conversion : Int) (spec : String) : Try String :=
  if expr.contains '\\' then .error (.invalid none)
  else
    let gap := if hasPrefix expr "\x7b" then " " else ""
    let conv := if conversion == -1 then "" else "!" ++ String.singleton (Char.ofNat conversion.toNat)
    .ok ("\x7b" ++ gap ++ expr ++ conv ++ spec ++ "\x7d")

mutual

/-- The text of an expression where the surroundings bind with `p`. Inside the fields of a formatted
text, backslashes are avoided. -/
def Expr.render (avoid : Bool) (p : Precedence) : Expr → Try String
  | .boolOp _ op vs => do
    let texts ← renderRising avoid op.precedence vs
    return parens (op.precedence < p) (String.intercalate (" " ++ op.word ++ " ") texts)
  | .named _ t v => do
    return parens (Precedence.named < p) ((← t.render avoid .atom) ++ " := " ++ (← v.render avoid .atom))
  | .binOp _ l op r => do
    let q := op.precedence
    let (ql, qr) := if op == .pow then (q.next, q) else (q, q.next)
    return parens (q < p) ((← l.render avoid ql) ++ " " ++ op.sign ++ " " ++ (← r.render avoid qr))
  | .unaryOp _ op e => do
    return parens (op.precedence < p) (op.sign ++ (← e.render avoid op.precedence))
  | .lambda _ as b => do
    let params ← as.render avoid
    let gap := if params.isEmpty then "" else " "
    return parens (Precedence.test < p) ("lambda" ++ gap ++ params ++ ": " ++ (← b.render avoid .test))
  | .ifExp _ t b o => do
    let q := Precedence.test.next
    return parens (Precedence.test < p)
      ((← b.render avoid q) ++ " if " ++ (← t.render avoid q) ++ " else " ++ (← o.render avoid .test))
  | .dict _ ks vs => do
    let keys ← renderKeys avoid ks
    let values ← renderValues avoid (ks.map (·.isNone)) vs
    return braces (commas ((keys.zip values).map fun (k, v) => k ++ v))
  | .set _ es => do
    if es.isEmpty then return "\x7b*()\x7d"
    return braces (commas (← renderAll avoid .test es))
  | .listComp _ e gs => do
    return "[" ++ (← e.render avoid .test) ++ String.join (← renderGenerators avoid gs) ++ "]"
  | .setComp _ e gs => do
    return braces ((← e.render avoid .test) ++ String.join (← renderGenerators avoid gs))
  | .dictComp _ k v gs => do
    return braces ((← k.render avoid .test) ++ ": " ++ (← v.render avoid .test)
      ++ String.join (← renderGenerators avoid gs))
  | .generator _ e gs => do
    return "(" ++ (← e.render avoid .test) ++ String.join (← renderGenerators avoid gs) ++ ")"
  | .await _ e => do return parens (Precedence.await < p) ("await " ++ (← e.render avoid .atom))
  | .yield _ none => .ok (parens (Precedence.yield < p) "yield")
  | .yield _ (some e) => do
    return parens (Precedence.yield < p) ("yield " ++ (← e.render avoid .atom))
  | .yieldFrom _ e => do
    return parens (Precedence.yield < p) ("yield from " ++ (← e.render avoid .atom))
  | .compare _ l ops cs => do
    let q := Precedence.compare.next
    let left ← l.render avoid q
    let rest ← renderAll avoid q cs
    return parens (Precedence.compare < p)
      (left ++ String.join ((ops.zip rest).map fun (o, c) => " " ++ o.sign ++ " " ++ c))
  | .call _ f as ks => do
    return (← f.render avoid .atom)
      ++ "(" ++ commas ((← renderAll avoid .test as) ++ (← renderKeywords avoid ks)) ++ ")"
  | .formatted _ v c s => do
    replacementField (← v.render true Precedence.test.next) c (← renderSpec s)
  | .joined _ vs => do
    let texts ← renderParts vs
    if avoid then return "f" ++ quoteSparingly allQuotes (String.join texts)
    return "f" ++ quoteParts (texts.zip (vs.map isTextConstant))
  | .constant _ v kind => .ok ((if kind == some "u" then "u" else "") ++ constantText avoid v)
  | .attribute _ v a _ => do
    return (← v.render avoid .atom) ++ (if isWholeConstant v then " ." else ".") ++ a
  | .subscript _ v (.tuple _ (e :: es) _) _ => do
    return (← v.render avoid .atom) ++ "[" ++ tupleItems (← renderAll avoid .test (e :: es)) ++ "]"
  | .subscript _ v s _ => do
    return (← v.render avoid .atom) ++ "[" ++ (← s.render avoid .test) ++ "]"
  | .starred _ v _ => do return "*" ++ (← v.render avoid .bitOr)
  | .name _ n _ => .ok n
  | .list _ es _ => do return "[" ++ commas (← renderAll avoid .test es) ++ "]"
  | .tuple _ es _ => do
    return parens (es.isEmpty || Precedence.tuple < p) (tupleItems (← renderAll avoid .test es))
  | .slice _ l u s => do
    let step ← renderOpt avoid ":" s
    return (← renderOpt avoid "" l) ++ ":" ++ (← renderOpt avoid "" u) ++ step

def Expr.renderPart : Expr → Try String
  | .joined _ vs => do return String.join (← renderParts vs)
  | .constant _ (.text s) _ => .ok (doubleBraces s)
  | .formatted _ v c s => do
    replacementField (← v.render true Precedence.test.next) c (← renderSpec s)
  | _ => .error (.invalid none)

def renderSpec : Option Expr → Try String
  | none => .ok ""
  | some e => do return ":" ++ (← e.renderPart)

def renderParts : List Expr → Try (List String)
  | [] => .ok []
  | e :: es => do return (← e.renderPart) :: (← renderParts es)

def renderAll (avoid : Bool) (p : Precedence) : List Expr → Try (List String)
  | [] => .ok []
  | e :: es => do return (← e.render avoid p) :: (← renderAll avoid p es)

/-- Each operand binds more tightly than the one before. -/
def renderRising (avoid : Bool) (p : Precedence) : List Expr → Try (List String)
  | [] => .ok []
  | e :: es => do return (← e.render avoid p.next) :: (← renderRising avoid p.next es)

def renderOpt (avoid : Bool) (before : String) : Option Expr → Try String
  | none => .ok ""
  | some e => do return before ++ (← e.render avoid .test)

def renderKeys (avoid : Bool) : List (Option Expr) → Try (List String)
  | [] => .ok []
  | none :: ks => do return "**" :: (← renderKeys avoid ks)
  | some k :: ks => do return ((← k.render avoid .test) ++ ": ") :: (← renderKeys avoid ks)

def renderValues (avoid : Bool) : List Bool → List Expr → Try (List String)
  | _, [] => .ok []
  | flags, v :: vs => do
    let p := if flags.headD false then Precedence.bitOr else .test
    return (← v.render avoid p) :: (← renderValues avoid flags.tail vs)

def renderKeywords (avoid : Bool) : List Keyword → Try (List String)
  | [] => .ok []
  | k :: ks => do return (← k.render avoid) :: (← renderKeywords avoid ks)

def Keyword.render (avoid : Bool) : Keyword → Try String
  | .mk _ none v => do return "**" ++ (← v.render avoid .test)
  | .mk _ (some n) v => do return n ++ "=" ++ (← v.render avoid .test)

def renderGenerators (avoid : Bool) : List Comprehension → Try (List String)
  | [] => .ok []
  | g :: gs => do return (← g.render avoid) :: (← renderGenerators avoid gs)

def Comprehension.render (avoid : Bool) : Comprehension → Try String
  | .mk t i ifs isAsync => do
    let q := Precedence.test.next
    let conds ← renderAll avoid q ifs
    return (if isAsync then " async for " else " for ") ++ (← t.render avoid .tuple) ++ " in "
      ++ (← i.render avoid q) ++ String.join (conds.map (" if " ++ ·))

def Arg.render (avoid : Bool) : Arg → Try String
  | .mk _ n ann _ => do return n ++ (← renderOpt avoid ": " ann)

def renderArgs (avoid : Bool) : List Arg → Try (List String)
  | [] => .ok []
  | a :: as => do return (← a.render avoid) :: (← renderArgs avoid as)

def renderArgOpt (avoid : Bool) (before : String) : Option Arg → Try (List String)
  | none => .ok []
  | some a => do return [before ++ (← a.render avoid)]

def renderDefaults (avoid : Bool) : List (Option Expr) → Try (List String)
  | [] => .ok []
  | d :: ds => do return (← renderOpt avoid "=" d) :: (← renderDefaults avoid ds)

/-- Parameters: positional ones with defaults, a star where only keywords follow, and the rest. -/
def Arguments.render (avoid : Bool) : Arguments → Try String
  | .mk posOnly args vararg kwOnly kwDefaults kwarg defaults => do
    let positional := withDefaults posOnly.length
      ((← renderArgs avoid posOnly) ++ (← renderArgs avoid args)) (← renderAll avoid .test defaults)
    let star ← renderArgOpt avoid "*" vararg
    let star := if star.isEmpty && !kwOnly.isEmpty then ["*"] else star
    let keywords := ((← renderArgs avoid kwOnly).zip (← renderDefaults avoid kwDefaults)).map fun (a, d) => a ++ d
    return commas (positional ++ star ++ keywords ++ (← renderArgOpt avoid "**" kwarg))

end

/-! Patterns of a match written out as constructor calls. -/

/-- A node with its fields; a field that is not there is left out. -/
def dumpNode (kind : String) (fields : List (Option (String × String))) : String :=
  kind ++ "(" ++ commas ((fields.filterMap id).map fun (k, v) => k ++ "=" ++ v) ++ ")"

def dumpField (name value : String) : Option (String × String) := some (name, value)

def dumpText (name : String) (value : Option String) : Option (String × String) :=
  value.map fun s => (name, textLiteral s)

def dumpList (l : List String) : String := "[" ++ commas l ++ "]"

/-- Only the expressions that patterns are made of have fields to show. -/
def Expr.dump : Expr → String
  | .constant _ v kind => dumpNode "Constant" [dumpField "value" v.literal, dumpText "kind" kind]
  | .name _ n ctx => dumpNode "Name" [dumpField "id" (textLiteral n), dumpField "ctx" (ctx.kind ++ "()")]
  | .attribute _ v a ctx =>
    dumpNode "Attribute"
      [dumpField "value" v.dump, dumpField "attr" (textLiteral a), dumpField "ctx" (ctx.kind ++ "()")]
  | .unaryOp _ op e => dumpNode "UnaryOp" [dumpField "op" (op.kind ++ "()"), dumpField "operand" e.dump]
  | .binOp _ l op r =>
    dumpNode "BinOp" [dumpField "left" l.dump, dumpField "op" (op.kind ++ "()"), dumpField "right" r.dump]
  | e => dumpNode e.kind []

mutual

def Pattern.dump : Pattern → String
  | .value _ e => dumpNode "MatchValue" [dumpField "value" e.dump]
  | .singleton _ v => dumpNode "MatchSingleton" [dumpField "value" v.literal]
  | .sequence _ ps => dumpNode "MatchSequence" [dumpField "patterns" (dumpList (dumpPatterns ps))]
  | .mapping _ keys ps rest =>
    dumpNode "MatchMapping" [dumpField "keys" (dumpList (keys.map Expr.dump)),
        dumpField "patterns" (dumpList (dumpPatterns ps)), dumpText "rest" rest]
  | .cls _ c ps attrs attrPs =>
    dumpNode "MatchClass" [dumpField "cls" c.dump, dumpField "patterns" (dumpList (dumpPatterns ps)),
        dumpField "kwd_attrs" (dumpList (attrs.map textLiteral)),
        dumpField "kwd_patterns" (dumpList (dumpPatterns attrPs))]
  | .star _ n => dumpNode "MatchStar" [dumpText "name" n]
  | .capture _ none n => dumpNode "MatchAs" [dumpText "name" n]
  | .capture _ (some p) n => dumpNode "MatchAs" [dumpField "pattern" p.dump, dumpText "name" n]
  | .anyOf _ ps => dumpNode "MatchOr" [dumpField "patterns" (dumpList (dumpPatterns ps))]

def dumpPatterns : List Pattern → List String
  | [] => []
  | p :: ps => p.dump :: dumpPatterns ps

end

end SecScan.Syntax
