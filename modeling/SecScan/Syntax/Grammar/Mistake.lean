import SecScan.Syntax.Grammar.Rule

/-! The forms of mistakes, and what is said of them. -/
namespace SecScan.Syntax

def colonMissing : Act := .here "expected ':'"

def anyEquals : String := "invalid syntax. Maybe you meant '==' or ':=' instead of '='?"

def bareGenerator : String := "Generator expression must be parenthesized"

def misplacedArguments : Act := fun s l =>
  let unpacks := (l.head?.map (·.parts)).getD [] |>.any (·.shape == .unpacked)
  .complain ⟨"positional argument follows keyword argument" ++ if unpacks then " unpacking" else "", s.reached⟩

/-- The complaint about a generator without parentheses beside other arguments. -/
def generatorAmong : Act := fun _ l =>
  let positional := ((l.head?.map (·.parts)).getD []).filter fun p => p.shape != .keyword && p.shape != .unpacked
  match positional with
  | _ :: _ :: _ => .complain ⟨bareGenerator, (positional.getLast?.map (·.line)).getD 0⟩
  | _ => .refuse

def argumentMistakes : Family := [
  ("wrongArguments", said 1 "< < ,.positionalArgument , keywordArguments > | keywordArguments > , ,.< starred !'=' >"
      "iterable argument unpacking follows keyword argument unpacking" ++
    said 0 "expression clauses , < argumentList | expression clauses >?" bareGenerator ++
    said 0 "NAME = expression clauses" anyEquals ++ forms "argumentList clauses" generatorAmong ++
    said 2 "argumentList , expression clauses" bareGenerator ++ forms "argumentList , argumentList"
      misplacedArguments),
  ("wrongKeyword", forms "< True | False | None > =" (.about 0 fun p => "cannot assign to " ++ p.text) ++
    said 0 "NAME = expression clauses" anyEquals ++
    said 0 "!< NAME = > expression =" "expression cannot contain assignment, perhaps you meant \"==\"?")]

def isLegacy (p : Phrase) : Bool := p.shape == .name && (p.text == "print" || p.text == "exec")

def commaMissing : Act := fun s l =>
  match l with
  | p :: _ =>
    if isLegacy p || s.depth == 0 then .refuse
    else .complain ⟨"invalid syntax. Perhaps you forgot a comma?", p.line⟩
  | [] => .refuse

def callMissing : Act := fun _ l =>
  match l with
  | p :: _ =>
    if isLegacy p then
      .complain ⟨"Missing parentheses in call to '" ++ p.text ++ "'. Did you mean " ++ p.text ++ "(...)?", p.line⟩
    else .refuse
  | [] => .refuse

def forgottenParentheses : Act := .located 1 "did you forget parentheses around the comprehension target?"

def starredValue : String := "cannot use a starred expression in a dictionary value"

def expressionMistakes : Family := [
  ("wrongLegacy", forms "NAME !( starExpressions" callMissing),
  ("wrongExpression", forms "!< NAME STRING | SOFT > disjunction soberExpression" commaMissing ++
    said 0 "disjunction if disjunction !< else | : >" "expected 'else' after 'if' expression"),
  ("wrongNamed", forms "expression := expression"
      (.about 0 fun p => "cannot use assignment expressions with " ++ p.title) ++
    said 0 "NAME = bitOr !< = | := >" anyEquals ++
    forms "!< list | tuple | generator | True | None | False > bitOr = bitOr !< = | := >"
      (.about 0 fun p => "cannot assign to " ++ p.title ++ " here. Maybe you meant '==' instead of '='?")),
  ("wrongGroup", said 1 "( starred )" "cannot use starred expression here" ++
    said 1 "( ** expression )" "cannot use double starred expression here"),
  ("wrongComprehension", said 1 "< [ | ( | \x7b > starred clauses"
      "iterable unpacking cannot be used in comprehension" ++
    forms "< [ | \x7b > starNamed , starNamedList clauses | < [ | \x7b > starNamed , clauses" forgottenParentheses),
  ("wrongDictComprehension", said 1 "\x7b ** bitOr clauses \x7d" "dict unpacking cannot be used in dict comprehension"),
  ("wrongKeyValues", forms ",.keyValueOrUnpacked , wrongKeyValue" ++ said 2 "expression : * bitOr" starredValue ++
    said 1 "expression : &< \x7d | , >" "expression expected after dictionary key and ':'"),
  ("wrongKeyValue", said 0 "expression !:" "':' expected after dictionary key" ++
    said 2 "expression : * bitOr" starredValue ++ said 1 "expression : &< \x7d | , >"
      "expression expected after dictionary key and ':'"),
  ("wrongForTarget", forms "async? for starExpressions" (.targetOf .loop 2))]

def simpleMistakes : Family := [
  ("wrongAssignment", forms "wrongAnnotated : expression"
      (.about 0 fun p => "only single target (not " ++ p.title ++ ") can be annotated") ++
    said 0 "starNamed , starNamedList* : expression" "only single target (not tuple) can be annotated" ++
    said 0 "expression : expression" "illegal target for annotation" ++
    forms "< starTargets = >* starExpressions =" (.targetOf .assignment 1) ++
    said 1 "< starTargets = >* yieldExpression =" "assignment to yield expression not possible" ++
    forms "starExpressions augmenting assignedValue"
      (.about 0 fun p => "'" ++ p.title ++ "' is an illegal expression for augmented assignment")),
  ("wrongAnnotated", forms "list | tuple" ++ forms "( wrongAnnotated )" (.part 1)),
  ("wrongDeletion", forms "del starExpressions" (.targetOf .deletion 1)),
  ("wrongImportedNames", forms "importedList , NEWLINE"
      (.here "trailing comma not allowed without surrounding parentheses"))]

/-- The mistakes in the parameters of a function or a lambda: how their rules and the whole are called, how they
may stand in brackets, and the complaint about a star that nothing follows. -/
def parameterMistakesOf (p owner bracketed close : String) (bare : String → Act) : Family := rules s!"
  wrongDefaults{p}: slashDefault{p} | default{p}+" ++ [
  ("wrong" ++ p, said 2 s!"plain{p}* wrongDefaults{p} plain{p}" "non-default argument follows default argument" ++
    forms s!"plain{p}* ( {bracketed} ,? )" (.located 1 (owner ++ " parameters cannot be parenthesized")) ++
    said 0 "/ ," "at least one argument must precede /" ++
    said 2 s!"< slashPlain{p} | slashDefault{p} > any{p}* /" "/ may appear only once" ++
    said 5 s!"< slashPlain{p} | slashDefault{p} >? any{p}* * < , | plain{p} > any{p}* /" "/ must be ahead of *" ++
    said 2 s!"any{p}+ / *" "expected comma between / and *"),
  ("wrongStar" ++ p, forms s!"* < {close} | , < {close} | ** > >" (bare "named arguments must follow bare *") ++
    said 2 s!"* one{p} =" "var-positional argument cannot have default value" ++
    said 3 s!"* < plain{p} | , > any{p}* * < plain{p} | , >" "* argument may appear only once"),
  ("wrongDoubleStar" ++ p, said 2 s!"** one{p} =" "var-keyword argument cannot have default value" ++
    said 3 s!"** one{p} , one{p} | ** one{p} , < * | ** | / >" "arguments cannot follow var-keyword argument")]

def parameterMistakes : Family :=
  parameterMistakesOf "Parameter" "Function" "plainParameter+" ")" (.located 0) ++
    parameterMistakesOf "Lambda" "Lambda expression" ",.oneLambda" ":" .here ++
    [("wrongDefault", said 0 "= &< ) | , >" "expected default value expression")]

def colonless (head : String) : List (Form Rule) := forms (head ++ " NEWLINE") colonMissing

def blockless (head : String) (n : Nat) (header : String) : List (Form Rule) :=
  forms (head ++ " : NEWLINE !INDENT") (.unindented n header)

def headMistakes (head header : String) : List (Form Rule) := colonless head ++ blockless head 0 (header ++
    " statement")

def withHead : String := "async? with ,.< expression < as starTarget >? >"

def withHeadInBrackets : String := "async? with ( ,.< expressions < as starTarget >? > ,? )"

def forHead : String := "async? for starTargets in starExpressions"

def classHead : String := "class NAME < ( arguments? ) >?"

def blockMistakes : Family := [
  ("wrongBlock", forms "NEWLINE !INDENT" (.here "expected an indented block")),
  ("wrongWithItem", forms "expression as expression &< , | ) | : >" (.targetOf .assignment 2)),
  ("wrongWith", colonless withHead ++ colonless withHeadInBrackets),
  ("wrongWithBlock", blockless withHead 1 "'with' statement" ++ blockless withHeadInBrackets 1 "'with' statement"),
  ("wrongTry", blockless "try" 0 "'try' statement" ++
    forms "try : block !< except | finally >" (.here "expected 'except' or 'finally' block") ++
    said 4 "try : block* exceptBlock+ except * expression < as NAME >? : |
      try : block* exceptStarBlock+ except < expression < as NAME >? >? :"
      "cannot have both 'except' and 'except*' on the same 'try'"),
  ("wrongExcept", said 2 "except *? expression , expressions < as NAME >? :"
      "multiple exception types must be parenthesized" ++
    colonless "except *? expression < as NAME >?" ++ colonless "except" ++
    forms "except * < NEWLINE | : >" (.here "expected one or more exception types")),
  ("wrongFinally", blockless "finally" 0 "'finally' statement"),
  ("wrongExceptBlock", blockless "except expression < as NAME >?" 0 "'except' statement" ++
    blockless "except" 0 "'except' statement"),
  ("wrongExceptStarBlock", blockless "except * expression < as NAME >?" 0 "'except*' statement"),
  ("wrongMatch", headMistakes "match subject" "'match'"),
  ("wrongCase", headMistakes "case patterns guard?" "'case'"),
  ("wrongAsPattern", said 2 "orPattern as _" "cannot use '_' as a target" ++
    said 2 "orPattern as !NAME expression" "invalid pattern target"),
  ("wrongClassPattern", said 2 "nameOrPath ( wrongClassArguments" "positional patterns follow keyword patterns"),
  ("wrongClassArguments", forms "< positionalPatterns , >? keywordPatterns , positionalPatterns" (.part 3)),
  ("wrongIf", headMistakes "if namedExpression" "'if'"),
  ("wrongElif", headMistakes "elif namedExpression" "'elif'"),
  ("wrongElse", blockless "else" 0 "'else' statement"),
  ("wrongWhile", headMistakes "while namedExpression" "'while'"),
  ("wrongFor", colonless forHead ++ blockless forHead 1 "'for' statement"),
  ("wrongFunction", blockless "async? def NAME ( allParameter? ) < -> expression >?" 1 "function definition"),
  ("wrongClass", colonless classHead ++ blockless classHead 0 "class definition")]

end SecScan.Syntax
