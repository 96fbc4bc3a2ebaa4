import SecScan.Syntax.Grammar.Form

/-! Grammars as text. A rule is a name with its forms, which bars part. A word of a form is a lexeme, a kind
of lexemes in capitals, or a rule; `<` and `>` enclose choices. What stands in quotes is a lexeme. Rules whose
names start with `wrong` describe mistakes. -/
namespace SecScan.Syntax

abbrev Rule := String

abbrev Family := List (Rule × List (Form Rule))

/-- Words that stand for other things than the rules and lexemes of their names. -/
def Item.signs : List (String × Item Rule) :=
  [("NAME", .kind .word), ("NEWLINE", .kind .lineEnd), ("STRING", .kind .string), ("NUMBER", .kind .number),
    ("INDENT", .kind .indent), ("DEDENT", .kind .dedent), ("END", .kind .textEnd), ("SOFT", .softWord), ("PEEK", .peek),
    ("~", .cut), ("_", .soft "_"), ("case", .soft "case"), ("match", .soft "match")]

def Item.named (word : List Char) : Item Rule :=
  let text := String.ofList word
  (signs.lookup text).getD <|
    if !(word.head?.any Text.isWord) then .fixed (String.ofList (word.filter (· != '\'')))
    else if Lexing.keywords.contains text then .fixed text
    else .rule text

def Item.marked (before behind : List Char) (i : Item Rule) : Item Rule :=
  match before, behind, i with
  | ['&'], _, i => .ahead i
  | ['&', '&'], _, .fixed text => .forced text
  | ['!'], _, i => .notAhead i
  | [mark, '.'], _, i => .separated (String.ofList [mark]) i
  | _, ['?'], i => .optional [i]
  | _, ['*'], i => .many i
  | _, ['+'], i => .several i
  | _, _, i => i

/-- The marks before a word, what they mark, and the marks behind it. -/
def parted (word : List Char) : List Char × List Char × List Char :=
  if Lexing.symbols.contains (String.ofList word) then ([], word, [])
  else
    let (before, rest) := match word with
      | '&' :: '&' :: c :: rest => (['&', '&'], c :: rest)
      | '&' :: c :: rest => (['&'], c :: rest)
      | '!' :: rest => (['!'], rest)
      | mark :: '.' :: rest => ([mark, '.'], rest)
      | _ => ([], word)
    if 1 < rest.length && rest.getLast?.any ['?', '*', '+'].contains then
      (before, rest.dropLast, rest.drop (rest.length - 1))
    else (before, rest, [])

/-- A group that is open: the marks before it, its choices so far and the items since, the last first. -/
structure Opened where
  before : List Char := []
  choices : List (List (Item Rule)) := []
  items : List (Item Rule) := []

def Opened.all (o : Opened) : List (List (Item Rule)) := (o.items.reverse :: o.choices).reverse

def Opened.next (l : List Opened) (word : String) : List Opened :=
  let (before, core, behind) := parted word.toList
  match core, l with
  | ['<'], l => { before } :: l
  | ['|'], o :: l => { o with choices := o.items.reverse :: o.choices, items := [] } :: l
  | ['>'], o :: p :: l => { p with items := .marked o.before behind (.oneOf o.all) :: p.items } :: l
  | core, o :: l => { o with items := .marked before behind (.named core) :: o.items } :: l
  | _, [] => []

def isMistake : List (Item Rule) → Bool
  | [.rule r] => Text.hasPrefix r "wrong"
  | _ => false

def formsOf (words : List String) (act : Act := .pass) : List (Form Rule) :=
  match words.foldl Opened.next [{}] with
  | [o] => o.all.map fun items => { items, act, late := isMistake items }
  | _ => []

def forms (text : String) (act : Act := .pass) : List (Form Rule) := formsOf (Text.words text) act

def made (shape : Shape) (text others : String) : List (Form Rule) := forms text (.as shape) ++ forms others

/-- Forms of a mistake, with what is said of the part that it is located at. -/
def said (n : Nat) (text message : String) : List (Form Rule) := forms text (.located n message)

/-- Rules that nothing is made of. Each starts with its name and a colon. -/
def rules (text : String) : Family :=
  let start (l : List (Rule × List String)) (w : String) : List (Rule × List String) :=
    if w.toList.head?.any Char.isAlpha && Text.hasSuffix w ":" then (String.ofList w.toList.dropLast, []) :: l
    else match l with
      | (r, ws) :: l => (r, w :: ws) :: l
      | [] => []
  ((Text.words text).foldl start []).map fun (r, ws) => (r, formsOf ws.reverse)

/-- Rules that are often tried again at the same place. -/
def remembered : List Rule := Text.words
  "simple block closedPattern starPattern expression starExpression disjunction conjunction inversion factor awaited
   strings arguments starTarget starTargetPath deletedTarget wrongNamed"

/-- Rules that start with themselves. -/
def recursive : List Rule := Text.words
  "modulePath attributePath bitOr bitXor bitAnd shift sum term primary targetPrimary"

end SecScan.Syntax
