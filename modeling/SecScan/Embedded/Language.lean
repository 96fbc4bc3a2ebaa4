import SecScan.Data

/-! Guesses the language of a text literal, with a confidence between zero and one. -/
namespace SecScan.Embedded

open Text Text.Pattern

inductive Language where
  | sql | shell | xml | html | json | yaml | regex
  deriving DecidableEq, Repr, Inhabited

def Language.text : Language → String
  | .sql => "sql"
  | .shell => "shell"
  | .xml => "xml"
  | .html => "html"
  | .json => "json"
  | .yaml => "yaml"
  | .regex => "regex"

def Language.all : List Language := [.sql, .shell, .xml, .html, .json, .yaml, .regex]

inductive YamlResult where
  | mapping | sequence | scalar | malformed
  | fault (f : Fault)

abbrev Rule := Pattern × Float

def words (l : List String) : Pattern := alts (l.map litAnyCase)

def inWord (p : Pattern) : Pattern := seqs [.wordEdge, p, .wordEdge]

def sqlRules : List Rule :=
  [(seqs [word "SELECT", plus anyChar, word "FROM"], 0.95),
   (seqs [.wordEdge, litAnyCase "INSERT", plus isBlank, litAnyCase "INTO", .wordEdge, plus anyChar,
      word "VALUES"], 0.95),
   (seqs [word "UPDATE", plus anyChar, word "SET"], 0.95),
   (seqs [.wordEdge, litAnyCase "CREATE", plus isBlank, litAnyCase "TABLE", .wordEdge], 0.95),
   (seqs [inWord (words ["INSERT", "UPDATE", "DELETE", "CREATE", "ALTER", "DROP"]), star anyChar,
      inWord (words ["FROM", "WHERE", "JOIN", "SET", "VALUES", "TABLE"])], 0.85)]

def sqlKeywords : List String := Text.words
  "select insert update delete merge create alter drop truncate from where join inner outer left right group having
   order limit offset union distinct as on and or not table database index view procedure"

def shellKeywords : List String := Text.words
  "cd ls pwd mkdir rmdir rm cp mv cat grep awk sed find xargs curl wget ssh scp nc netcat echo printf export source
   chmod chown ps kill top df du tar gzip apt yum dnf brew pip npm"

def shellRules : List Rule :=
  [(seqs [plus (!isBlank ·), star isBlank, lit "|", star isBlank, plus (!isBlank ·)], 0.85),
   (seqs [.wordEdge, words shellKeywords, plus isBlank, lit "-", plus (anyCase asciiLetter)], 0.90),
   (.one (among "><"), 0.80),
   (.alt (seqs [lit "$(", star notNewline, lit ")"]) (seqs [lit "\x60", star notNewline, lit "\x60"]), 0.90),
   (seqs [lit "$", opt (lit "\x7b"), plus isWord], 0.70),
   (seqs [inWord (words (shellKeywords.take 10)), star notNewline, alts [lit "&&", lit "||", lit ";"]], 0.85)]

def htmlRules : List Rule :=
  let name := seqs [.one asciiLetter, star asciiAlphanumeric]
  [(seqs [lit "<", star isBlank, .group 1 name, .wordEdge, star (· != '>'), lit ">",
      lazyStar anyChar, lit "</", star isBlank, .again 1, star isBlank, lit ">"], 0.95),
   (seqs [lit "<", star isBlank, name, .wordEdge, star (· != '>'), lit "/", star isBlank, lit ">"], 0.90),
   (seqs [litAnyCase "<!DOCTYPE", plus isBlank, litAnyCase "html>"], 0.95),
   (seqs [lit "<", star isBlank,
      words ["html", "head", "body", "div", "span", "p", "a", "img", "script", "style"], .wordEdge],
     0.85)]

def xmlRules : List Rule :=
  [(seqs [litAnyCase "<?xml", plus isBlank, litAnyCase "version="], 0.95),
   (seqs [lit "xmlns", .one (among ":=")], 0.90)]

def bracketed : Pattern :=
  seqs [.textHead, star isBlank, .one (among "\x7b["), star anyChar, .one (among "\x7d]"), star isBlank, .textTail]

def yamlShapes : List Pattern :=
  [seqs [.lineHead, star isBlank, plus (fun c => isWord c || c == '-'), star isBlank, lit ":",
      star isBlank, plus notNewline],
   seqs [.lineHead, star isBlank, lit "-", plus isBlank, plus isWord]]

def charClass : Pattern := seqs [lit "[", opt (lit "^"), plus (· != ']'), lit "]"]
def classEscape : Pattern := seqs [lit "\\", .one (among "dDwWsS")]
def countedRepeat : Pattern := seqs [lit "\x7b", plus (fun c => isDecimal c || c == ','), lit "\x7d"]
def parenthesized : Pattern := seqs [lit "(", star notNewline, lit ")"]
def anyRepeat : Pattern := .alt (lit ".*") (lit ".+")

def regexRules : List Rule :=
  [(alts [charClass, classEscape, countedRepeat, parenthesized, lit ".*", lit ".+"], 0.75),
   (alts [lit "^", lit "$", lit "\\b", lit "\\B"], 0.65)]

def regexFeatures : List Pattern := [charClass, classEscape, countedRepeat, parenthesized, anyRepeat, .one (among "^$")]

def larger (a b : Float) : Float := if a < b then b else a

def best (rules : List Rule) (s : String) : Float :=
  rules.foldl (fun x (p, c) => if p.occurs s then larger x c else x) 0.0

def keywordCount (l : List String) (s : String) : Nat := l.countP fun w => (word w).occurs s

def sentenceHeads : List String := Text.words "please can could would should may might the a an this that"

variable (s : String)

def sqlScore : Float :=
  if (Text.words s).head?.any fun w => sentenceHeads.contains (lower w) then 0.0
  else
    let x := best sqlRules s
    let n := keywordCount sqlKeywords s
    if 3 ≤ n then larger x 0.80 else if 2 ≤ n then larger x 0.65 else x

def shellScore : Float :=
  let x := best shellRules s
  if 2 ≤ keywordCount shellKeywords s then larger x 0.75 else x

def jsonScore : Try Float := do
  match ← Json.readIfSound s with
  | some _ =>
    return match (strip s).toList.head? with
      | some c => if c == '\x7b' || c == '[' then 0.95 else 0.70
      | none => 0.70
  | none => return if bracketed.occurs s then 0.50 else 0.0

def yamlScore (r : YamlResult) (s : String) : Try Float :=
  let braced := hasPrefix (strip s) "\x7b"
  match r with
  | .mapping | .sequence =>
    if braced && holds s "invalid" then .ok 0.0
    else if s.contains ':' && !braced then .ok 0.90
    else .ok 0.75
  | .scalar => .ok 0.0
  | .malformed => .ok (if yamlShapes.any (·.occurs s) then 0.55 else 0.0)
  | .fault f => .error f

def regexScore : Float :=
  let x := best regexRules s
  let n := regexFeatures.countP (·.occurs s)
  if 3 ≤ n then larger x 0.85 else if 2 ≤ n then larger x 0.70 else x

variable (yaml : String → YamlResult)

def score (l : Language) (s : String) : Try Float :=
  match l with
  | .sql => .ok (sqlScore s)
  | .shell => .ok (shellScore s)
  | .xml => .ok (best xmlRules s)
  | .html => .ok (best htmlRules s)
  | .json => jsonScore s
  | .yaml => yamlScore (yaml s) s
  | .regex => .ok (regexScore s)

def scoreOf (l : Language) (v : Value) : Try Float :=
  match v, l with
  | .text s, _ => score yaml l s
  | _, .sql => .error (v.lacks "split")
  | _, .yaml => .error (v.lacks "read")
  | _, _ => .error .wrongKind

def shortest : Nat := 5

/-- The language that we are surest of, if more than half sure; of equal ones the first. -/
def detect (s : String) : Try (Option Language × Float) := do
  if (strip s).length < shortest then return (none, 0.0)
  let scores ← Language.all.mapM fun l => do return (l, ← score yaml l s)
  return scores.foldl (fun (b, x) (l, y) => if 0.5 < y && x < y then (some l, y) else (b, x)) (none, 0.0)

end SecScan.Embedded
