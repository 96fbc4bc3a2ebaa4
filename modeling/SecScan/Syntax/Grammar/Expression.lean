import SecScan.Syntax.Grammar.Rule

/-! The forms of expressions and of targets. -/
namespace SecScan.Syntax

def keptConstant : Act := fun s l =>
  match l with
  | [p] => .accept { p with shape := .constant }
  | _ => Act.pass s l

/-- A number literal, which must not have too many digits. -/
def keptNumber : Act := fun s l =>
  match l with
  | [p] => match numberFlaw p.text with
    | some m => .complain ⟨m, p.line⟩
    | none => .accept { p with shape := .literal }
  | _ => Act.pass s l

def keptStrings : Act := fun s l =>
  let texts := l.flatMap fun p => if p.shape == .group then p.parts else [p]
  match stringsFlaw s.strings s.reached (texts.map fun p => (p.text, p.line)) with
  | some (c, isInner) => if isInner then .settled c else .complain c
  | none => .accept { shape := if texts.any fun p => isFormatted p.text then .formatted else .literal, line := s.line }

def expressionForms : Family := rules "
  formattedPart: starExpressions
  starNamedList: ,.starNamed ,?
  namedExpression: assignmentExpression | wrongNamed | expression !:=
  comparisonPair: == bitOr | != bitOr | <= bitOr | '<' bitOr | >= bitOr | '>' bitOr | not in bitOr | membership | is
    not bitOr | is bitOr
  keyValues: ,.keyValueOrUnpacked ,?
  keyValueOrUnpacked: ** bitOr | keyValue
  keyValue: expression : expression
  clauses: clause+
  clause: async for starTargets in ~ disjunction < if disjunction >* | for starTargets in ~ disjunction < if
    disjunction >* | wrongForTarget" ++ [
  ("expressions", made .tuple "expression < , expression >+ ,? | expression ," "expression"),
  ("expression", forms "wrongExpression | wrongLegacy" ++ forms "disjunction if disjunction else expression"
      (.as .conditional) ++ forms "disjunction | lambdaExpression"),
  ("soberExpression", made .conditional "disjunction if disjunction else expression" "disjunction | lambdaExpression"),
  ("yieldExpression", forms "yield from expression | yield starExpressions?" (.as .yielding)),
  ("starExpressions", made .tuple "starExpression < , starExpression >+ ,? | starExpression ," "starExpression"),
  ("starExpression", made .starred "* bitOr" "expression"),
  ("starNamed", made .starred "* bitOr" "namedExpression"),
  ("assignmentExpression", forms "NAME := ~ expression" (.as .named)),
  ("disjunction", made .operation "conjunction < or conjunction >+" "conjunction"),
  ("conjunction", made .operation "inversion < and inversion >+" "inversion"),
  ("inversion", made .operation "not inversion" "comparison"),
  ("comparison", made .comparison "bitOr comparisonPair+" "bitOr"),
  ("membership", forms "in bitOr" (.as .member)),
  ("bitOr", made .operation "bitOr '|' bitXor" "bitXor"),
  ("bitXor", made .operation "bitXor ^ bitAnd" "bitAnd"),
  ("bitAnd", made .operation "bitAnd & shift" "shift"),
  ("shift", made .operation "shift << sum | shift >> sum" "sum"),
  ("sum", made .operation "sum + term | sum - term" "term"),
  ("term", made .operation "term * factor | term / factor | term // factor | term % factor | term @ factor" "factor"),
  ("factor", made .operation "+ factor | - factor | '~' factor" "power"),
  ("power", made .operation "awaited ** factor" "awaited"),
  ("awaited", made .awaiting "await primary" "primary"),
  ("primary", forms "primary . NAME" (.as .attribute) ++ forms "primary generator | primary ( arguments? )"
      (.as .call) ++ forms "primary [ slices ]" (.as .subscript) ++ forms "atom"),
  ("slices", forms "slice !," ++ forms ",.< slice | starred > ,?" (.as .tuple)),
  ("slice", made .literal "expression? : expression? < : expression? >?" "namedExpression"),
  ("atom", forms "NAME" ++ forms "True | False | None" keptConstant ++
    forms "&STRING strings | number | &( < tuple | group | generator > | &[ < list | listComprehension > | &\x7b <
      dict | set | dictComprehension | setComprehension >" ++
    forms "..." (.as .ellipsis)),
  ("number", forms "NUMBER" keptNumber),
  ("strings", forms "STRING+" keptStrings),
  ("group", forms "( < yieldExpression | namedExpression > )" (.part 1) ++ forms "wrongGroup"),
  ("list", forms "[ starNamedList? ]" (.as .list)),
  ("tuple", forms "( < starNamed , starNamedList? >? )" (.as .tuple)),
  ("set", forms "\x7b starNamedList \x7d" (.as .set)),
  ("dict", made .dict "\x7b keyValues? \x7d" "\x7b wrongKeyValues \x7d"),
  ("listComprehension", made .listComprehension "[ namedExpression clauses ]" "wrongComprehension"),
  ("setComprehension", made .setComprehension "\x7b namedExpression clauses \x7d" "wrongComprehension"),
  ("generator", made .generator "( < assignmentExpression | expression !:= > clauses )" "wrongComprehension"),
  ("dictComprehension", made .dictComprehension "\x7b keyValue clauses \x7d" "wrongDictComprehension")]

def argumentForms : Family := rules "
  arguments: argumentList ,? &) | wrongArguments
  positionalArgument: starred | < assignmentExpression | expression !:= > !'='
  keywordArguments: ,.keywordOrStarred , ,.keywordOrUnpacked | ,.keywordOrStarred | ,.keywordOrUnpacked" ++ [
  ("argumentList", forms ",.positionalArgument < , keywordArguments >? | keywordArguments" (.as .group)),
  ("starred", forms "* expression" (.as .starred) ++ forms "*" (.here "Invalid star expression")),
  ("keywordOrStarred", forms "wrongKeyword" ++ forms "NAME = expression" (.as .keyword) ++ forms "starred"),
  ("keywordOrUnpacked", forms "wrongKeyword" ++ forms "NAME = expression" (.as .keyword) ++ forms "** expression"
      (.as .unpacked))]

def pathForms (after : String) : List (Form Rule) :=
  forms ("targetPrimary . NAME " ++ after) (.as .attribute) ++
    forms ("targetPrimary [ slices ] " ++ after) (.as .subscript)

def targetForms : Family := rules "
  starTargetList: ,.starTarget ,?
  starTargetTuple: starTarget < , starTarget >+ ,? | starTarget ,
  singleTarget: singlePath | NAME | ( singleTarget )
  targetGoesOn: ( | [ | .
  deletedTargets: ,.deletedTarget ,?
  deletedAtom: NAME | ( deletedTarget ) | ( deletedTargets? ) | [ deletedTargets? ]" ++ [
  ("starTargets", forms "starTarget !," ++ forms "starTarget < , starTarget >* ,?" (.as .tuple)),
  ("starTarget", made .starred "* < !* starTarget >" "starTargetPath"),
  ("starTargetPath", pathForms "!targetGoesOn" ++ forms "starTargetAtom"),
  ("starTargetAtom", forms "NAME | ( starTargetPath )" ++ forms "( starTargetTuple? )" (.as .tuple) ++
    forms "[ starTargetList? ]" (.as .list)),
  ("singlePath", pathForms "!targetGoesOn"),
  ("targetPrimary", pathForms "&targetGoesOn" ++
    forms "targetPrimary generator &targetGoesOn | targetPrimary ( arguments? ) &targetGoesOn" (.as .call) ++
    forms "atom &targetGoesOn"),
  ("deletedTarget", pathForms "!targetGoesOn" ++ forms "deletedAtom")]

end SecScan.Syntax
