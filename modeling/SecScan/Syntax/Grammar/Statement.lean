import SecScan.Syntax.Grammar.Rule

/-! The forms of patterns and statements. -/
namespace SecScan.Syntax

def isImaginary (p : Phrase) : Bool := Text.hasSuffix p.text "j" || Text.hasSuffix p.text "J"

def numberOf (imaginary : Bool) : Act := fun s l =>
  match l with
  | [p] =>
    if isImaginary p == imaginary then .accept p
    else
      let name := if imaginary then "imaginary" else "real"
      .complain ⟨name ++ " number required in complex literal", p.line⟩
  | _ => Act.pass s l

def patternForms : Family := rules "
  patterns: openSequence | pattern
  pattern: asPattern | orPattern
  closedPattern: literalPattern | captureTarget | wildcardPattern | valuePattern | groupPattern | sequencePattern |
    mappingPattern | classPattern
  literalPattern: signedNumber !< + | - > | complexNumber | strings | None | True | False
  complexNumber: signedReal + imaginaryNumber | signedReal - imaginaryNumber
  signedNumber: number | - number
  signedReal: realNumber | - realNumber
  captureTarget: !_ NAME !< . | ( | = >
  wildcardPattern: _
  valuePattern: attributePath !< . | ( | = >
  attributePath: nameOrPath . NAME
  nameOrPath: attributePath | NAME
  groupPattern: ( pattern )
  sequencePattern: [ sequenceItems? ] | ( openSequence? )
  openSequence: sequenceItem , sequenceItems?
  sequenceItems: ,.sequenceItem ,?
  sequenceItem: starPattern | pattern
  starPattern: * captureTarget | * wildcardPattern
  mappingPattern: \x7b \x7d | \x7b restPattern ,? \x7d | \x7b itemPatterns , restPattern ,? \x7d | \x7b itemPatterns
    ,? \x7d
  itemPatterns: ,.itemPattern
  itemPattern: < literalPattern | attributePath > : pattern
  restPattern: ** captureTarget
  classPattern: nameOrPath ( ) | nameOrPath ( positionalPatterns ,? ) | nameOrPath ( keywordPatterns ,? ) | nameOrPath
    ( positionalPatterns , keywordPatterns ,? ) | wrongClassPattern
  positionalPatterns: ,.pattern
  keywordPatterns: ,.keywordPattern
  keywordPattern: NAME = pattern" ++ [
  ("asPattern", made .literal "orPattern as captureTarget" "wrongAsPattern"),
  ("orPattern", forms "|.closedPattern" (.as .literal)),
  ("realNumber", forms "number" (numberOf false)),
  ("imaginaryNumber", forms "number" (numberOf true))]

def simpleForms : Family := rules "
  file: statements? END
  statements: statement+
  statement: compound | simpleLine
  simpleLine: simple !; NEWLINE | ;.simple ;? NEWLINE
  simple: assignment | starExpressions | &return returning | &< import | from > importing | &raise raising | pass |
    &del deleting | &yield yieldExpression | &assert asserting | break | continue | &< global | nonlocal > naming
  assignment: NAME : expression < = assignedValue >? | < ( singleTarget ) | singlePath > : expression < =
    assignedValue >? | < starTargets = >+ assignedValue !'=' | singleTarget augmenting ~ assignedValue |
    wrongAssignment
  assignedValue: yieldExpression | starExpressions
  augmenting: += | -= | *= | @= | /= | %= | &= | |= | ^= | <<= | >>= | **= | //=
  returning: return starExpressions?
  raising: raise expression < from expression >? | raise
  naming: < global | nonlocal > ,.NAME
  deleting: del deletedTargets &< ; | NEWLINE > | wrongDeletion
  asserting: assert expression < , expression >?
  importing: import moduleNames | importingFrom
  importingFrom: from < . | ... >* modulePath import importedNames | from < . | ... >+ import importedNames
  importedNames: ( importedList ,? ) | importedList !, | * | wrongImportedNames
  importedList: ,.importedName
  importedName: NAME < as NAME >?
  moduleNames: ,.moduleAlias
  moduleAlias: modulePath < as NAME >?
  modulePath: modulePath . NAME | NAME"

/-- The forms of parameters, for a function or a lambda: how their rules are called, what stands behind a
comma and what ends them. A lambda has no form for one with a star before its annotation. -/
def parametersOf (p next close : String) : Family := rules s!"
  all{p}: wrong{p} | list{p}
  list{p}: slashPlain{p} plain{p}* default{p}* star{p}? | slashDefault{p} default{p}* star{p}? |
    plain{p}+ default{p}* star{p}? | default{p}+ star{p}? | star{p}
  slashPlain{p}: plain{p}+ / , | plain{p}+ / &{close}
  slashDefault{p}: plain{p}* default{p}+ / , | plain{p}* default{p}+ / &{close}
  star{p}: wrongStar{p} | * plain{p} any{p}* doubleStar{p}? | * starred{p} any{p}* doubleStar{p}? |
    * , any{p}+ doubleStar{p}? | doubleStar{p}
  doubleStar{p}: wrongDoubleStar{p} | ** plain{p}
  plain{p}: one{p} {next} | one{p} &{close}
  default{p}: one{p} defaultValue {next} | one{p} defaultValue &{close}
  any{p}: one{p} defaultValue? {next} | one{p} defaultValue? &{close}"

def parameterForms : Family :=
  parametersOf "Parameter" ", PEEK" ")" ++ parametersOf "Lambda" "," ":" ++ rules "
  oneParameter: NAME < : expression >?
  starredParameter: NAME : starExpression , PEEK | NAME : starExpression &)
  oneLambda: NAME
  defaultValue: = expression | wrongDefault" ++ [
  ("lambdaExpression", forms "lambda allLambda? : expression" (.as .lambda))]

def compoundForms : Family := rules "
  compound: &< def | @ | async > functionStatement | &if ifStatement | &< class | @ > classStatement | &< with | async
    > withStatement | &< for | async > forStatement | &try tryStatement | &while whileStatement | matchStatement
  block: NEWLINE INDENT statements DEDENT | simpleLine | wrongBlock
  decorators: < @ namedExpression NEWLINE >+
  classStatement: decorators bareClass | bareClass
  bareClass: wrongClass | class NAME < ( arguments? ) >? : block
  functionStatement: decorators bareFunction | bareFunction
  bareFunction: wrongFunction | def NAME &&( allParameter? ) < -> expression >? &&: block | async def NAME &&(
    allParameter? ) < -> expression >? &&: block
  ifStatement: wrongIf | if namedExpression : block elifStatement | if namedExpression : block elseBlock?
  elifStatement: wrongElif | elif namedExpression : block elifStatement | elif namedExpression : block elseBlock?
  elseBlock: wrongElse | else &&: block
  whileStatement: wrongWhile | while namedExpression : block elseBlock?
  forStatement: wrongFor | for starTargets in ~ starExpressions : block elseBlock? | async for starTargets in ~
    starExpressions : block elseBlock? | wrongForTarget
  withStatement: wrongWithBlock | with ( ,.withItem ,? ) : block | with ,.withItem : block | async with ( ,.withItem
    ,? ) : block | async with ,.withItem : block | wrongWith
  withItem: expression as starTarget &< , | ) | : > | wrongWithItem | expression
  tryStatement: wrongTry | try &&: block finallyBlock | try &&: block exceptBlock+ elseBlock? finallyBlock? | try &&:
    block exceptStarBlock+ elseBlock? finallyBlock?
  exceptBlock: wrongExceptBlock | except expression < as NAME >? : block | except : block | wrongExcept
  exceptStarBlock: wrongExceptStarBlock | except * expression < as NAME >? : block | wrongExcept
  finallyBlock: wrongFinally | finally &&: block
  matchStatement: match subject : NEWLINE INDENT caseBlock+ DEDENT | wrongMatch
  subject: starNamed , starNamedList? | namedExpression
  caseBlock: wrongCase | case patterns guard? : block
  guard: if namedExpression"

end SecScan.Syntax
