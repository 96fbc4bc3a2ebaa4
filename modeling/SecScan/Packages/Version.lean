import SecScan.Data

/-! Versions of packages: a release with an epoch before it and, behind it, marks for what comes
before and after the release proper. -/
namespace SecScan.Packages

open Text

inductive PreKind where
  | alpha
  | beta
  | candidate
  deriving DecidableEq, Repr, Inhabited

def PreKind.rank : PreKind → Nat
  | .alpha => 0
  | .beta => 1
  | .candidate => 2

def PreKind.text : PreKind → String
  | .alpha => "a"
  | .beta => "b"
  | .candidate => "rc"

inductive LocalPart where
  | word (s : String)
  | number (n : Nat)
  deriving DecidableEq, Repr, Inhabited, Ord

structure Version where
  epoch : Nat := 0
  release : List Nat
  pre : Option (PreKind × Nat) := none
  post : Option Nat := none
  dev : Option Nat := none
  localParts : Option (List LocalPart) := none
  deriving DecidableEq, Repr, Inhabited

namespace Version

variable (cs : List Char)

def number : Option (Nat × List Char) :=
  let ds := cs.takeWhile Char.isDigit
  if ds.isEmpty || 4300 < ds.length then none
  else some (ds.foldl (fun n c => 10 * n + (c.toNat - 48)) 0, cs.drop ds.length)

def isSeparator (c : Char) : Bool := c == '-' || c == '_' || c == '.'

def skipSeparator : List Char → List Char
  | c :: r => if isSeparator c then r else c :: r
  | [] => []

def word? (w : String) (cs : List Char) : Option (List Char) :=
  if w.toList.isPrefixOf cs then some (cs.drop w.length) else none

/-- A mark: one of some words, with a separator before and behind it, and a number. -/
def mark? (words : List (String × α)) (cs : List Char) : Option (α × Nat × List Char) :=
  let cs := skipSeparator cs
  words.findSome? fun (w, a) => (word? w cs).map fun r =>
    match number (skipSeparator r) with
    | some (n, r) => (a, n, r)
    | none => (a, 0, skipSeparator r)

def preWords : List (String × PreKind) :=
  [("alpha", .alpha), ("a", .alpha), ("beta", .beta), ("b", .beta), ("preview", .candidate),
   ("pre", .candidate), ("c", .candidate), ("rc", .candidate)]

def releaseFrom : Nat → List Char → List Nat × List Char
  | 0, cs => ([], cs)
  | fuel + 1, '.' :: cs => match number cs with
    | some (n, r) => let (l, r) := releaseFrom fuel r; (n :: l, r)
    | none => ([], '.' :: cs)
  | _, cs => ([], cs)

def readPre : Option (PreKind × Nat) × List Char :=
  match mark? preWords cs with
  | some (k, n, r) => (some (k, n), r)
  | none => (none, cs)

def readPost : Option Nat × List Char :=
  let implicit := match cs with
    | '-' :: r => number r
    | _ => none
  match implicit with
  | some (n, r) => (some n, r)
  | none => match mark? [("post", ()), ("rev", ()), ("r", ())] cs with
    | some (_, n, r) => (some n, r)
    | none => (none, cs)

def readDev : Option Nat × List Char :=
  match mark? [("dev", ())] cs with
  | some (_, n, r) => (some n, r)
  | none => (none, cs)

def isLocalChar (c : Char) : Bool := c.isDigit || ('a' ≤ c && c ≤ 'z')

def localPart? (s : List Char) : Option LocalPart :=
  if s.isEmpty || !s.all isLocalChar then none
  else if s.all Char.isDigit then (number s).map fun n => .number n.1
  else some (.word (String.ofList s))

def splitSeparators : List (List Char) := (cs.splitOnP isSeparator)

def readAll : Option Version := do
  let cs := (word? "v" cs).getD cs
  let (n, r) ← number cs
  let (epoch, first, r) ← match r with
    | '!' :: r => do let (m, r) ← number r; pure (n, m, r)
    | _ => pure (0, n, r)
  let (more, r) := releaseFrom r.length r
  let (pre, r) := readPre r
  let (post, r) := readPost r
  let (dev, r) := readDev r
  let v : Version := { epoch, release := first :: more, pre, post, dev }
  match r with
  | [] => pure v
  | '+' :: r => do return { v with localParts := some (← (splitSeparators r).mapM localPart?) }
  | _ => none

/-- Blanks around a version do not count, nor does letter case. -/
def parse? (s : String) : Option Version := readAll ((strip s).toList.map Char.toLower)

def dots (l : List Nat) : String := ".".intercalate (l.map toString)

def LocalPart.text : LocalPart → String
  | .word s => s
  | .number n => toString n

variable (v : Version)

/-- Epoch and release alone. -/
def base : Version := { epoch := v.epoch, release := v.release }

/-- All but the local mark. -/
def withoutLocal : Version := { v with localParts := none }

def text : String :=
  (if v.epoch == 0 then "" else toString v.epoch ++ "!") ++ dots v.release ++
    (v.pre.elim "" fun (k, n) => k.text ++ toString n) ++
    (v.post.elim "" fun n => ".post" ++ toString n) ++
    (v.dev.elim "" fun n => ".dev" ++ toString n) ++
    (v.localParts.elim "" fun l => "+" ++ ".".intercalate (l.map LocalPart.text))

def isPrerelease : Bool := v.pre.isSome || v.dev.isSome

/-! Order -/

def trimZeros (l : List Nat) : List Nat := (l.reverse.dropWhile (· == 0)).reverse

/-- The places of a version in the order: those of its epoch and its release, and those of its marks, before all
numbers, at one, or after all. A version under development comes before the marks for what precedes its release. -/
def places : List (List Nat) :=
  let pre := match v.pre with
    | some (k, n) => [1, k.rank, n]
    | none => if v.post.isNone && v.dev.isSome then [0] else [2]
  [[v.epoch], trimZeros v.release, pre, v.post.elim [0] ([1, ·]), v.dev.elim [2] ([1, ·])]

variable (a b : Version)

/-- In a local mark, words come before numbers, and it comes before a longer one. -/
def cmp : Ordering := (compare a.places b.places).then (compare a.localParts b.localParts)

def lt : Bool := cmp a b == .lt
def le : Bool := cmp a b != .gt
def equal : Bool := cmp a b == .eq

end Version

end SecScan.Packages

/-! Conditions on versions. -/
namespace SecScan.Packages

open Text

inductive Relation where
  | compatible
  | equal
  | notEqual
  | atMost
  | atLeast
  | below
  | above
  | identical
  deriving DecidableEq, Repr, Inhabited

/-- Relations with their signs, those first that begin like others. -/
def Relation.signs : List (String × Relation) :=
  [("===", .identical), ("~=", .compatible), ("==", .equal), ("!=", .notEqual), ("<=", .atMost),
   (">=", .atLeast), ("<", .below), (">", .above)]

/-- What a version is compared with: a version, all with a certain beginning, all from a version on
with a certain beginning, or just a text. -/
inductive Operand where
  | version (v : Version)
  | wildcard (v : Version)
  | series (v : Version) (stem : String)
  | literal (s : String)
  deriving DecidableEq, Repr, Inhabited

structure Condition where
  relation : Relation
  operand : Operand
  deriving DecidableEq, Repr, Inhabited

def isBareRelease (v : Version) : Bool := v.pre.isNone && v.post.isNone && v.dev.isNone && v.localParts.isNone

/-- Digits that a mark follows, in two parts. -/
def splitMark (item : String) : List String :=
  let cs := item.toList
  let digits := cs.takeWhile Char.isDigit
  let rest := cs.drop digits.length
  let mark := rest.takeWhile (!·.isDigit)
  let number := rest.drop mark.length
  if !digits.isEmpty && ["a", "b", "c", "rc"].contains (String.ofList mark) && !number.isEmpty
      && number.all Char.isDigit then
    [String.ofList digits, String.ofList rest]
  else [item]

variable (s : String)

/-- The parts of a written version: its epoch, the numbers between its points, and its marks. -/
def segments : List String :=
  let (epoch, rest) := match (split s "!").reverse with
    | last :: first@(_ :: _) => ("!".intercalate first.reverse, last)
    | _ => ("", s)
  (if epoch == "" then "0" else epoch) :: (split rest ".").flatMap splitMark

/-- What all versions of a series begin with: all but the last part of a written version, marks left
out. Only marks in their usual spelling count as such. -/
def stemOf : String :=
  let isMark (part : String) := ["dev", "a", "b", "rc", "post"].any (hasPrefix part)
  match ((segments s).takeWhile (!isMark ·)).dropLast with
  | epoch :: rest => epoch ++ "!" ++ ".".intercalate rest
  | [] => ""

def operand? (r : Relation) (s : String) : Option Operand :=
  match r with
  | .identical => if s.toList.any fun c => isBlank c || c == ';' || c == ')' then none
    else some (.literal s)
  | .equal | .notEqual =>
    if hasSuffix s ".*" then
      ((Version.parse? (take (s.length - 2) s)).filter isBareRelease).map .wildcard
    else (Version.parse? s).map .version
  | .compatible =>
    ((Version.parse? s).filter fun v => v.localParts.isNone && 2 ≤ v.release.length).map (.series · (stemOf s))
  | _ => ((Version.parse? s).filter (·.localParts.isNone)).map .version

def Condition.parse? : Option Condition :=
  let s := strip s
  (Relation.signs.find? fun (sign, _) => hasPrefix s sign).bind fun (sign, r) =>
    (operand? r (strip (drop sign.length s))).map fun o => ⟨r, o⟩

/-- All conditions between commas; one that is none spoils them all. -/
def conditions? : Option (List Condition) :=
  ((split s ",").filter fun p => strip p != "").mapM Condition.parse?

namespace Condition

/-- Whether the condition itself speaks of a version before its release; an operand that is no
version is an error. -/
def namesPrerelease? (c : Condition) : Option Bool :=
  match c.relation, c.operand with
  | .notEqual, _ | .below, _ | .above, _ => some false
  | _, .version v | _, .wildcard v | _, .series v _ => some v.isPrerelease
  | _, .literal s => (Version.parse? s).map (·.isPrerelease)

def numbers (parts : List String) : List String := parts.takeWhile (·.toList.all Char.isDigit)

variable (v : Version)

/-- Whether a version begins like a written one, zeros behind its numbers being understood. -/
def beginsLike (written : String) : Bool :=
  let start := segments ((Version.parse? written).elim written (·.text))
  let parts := segments v.withoutLocal.text
  let ns := numbers parts
  let padded := ns ++ List.replicate ((numbers start).length - ns.length) "0" ++ parts.drop ns.length
  padded.take start.length == start

def equals : Operand → Bool
  | .wildcard w => beginsLike v w.text
  | .version w => (if w.localParts.isSome then v else v.withoutLocal).equal w
  | .series _ _ | .literal _ => false

variable (v w : Version)

def sameBase : Bool := v.base.equal w.base

def isBelow : Bool := v.lt w && !(!w.isPrerelease && v.isPrerelease && sameBase v w)

def isAbove : Bool :=
  w.lt v && !(w.post.isNone && v.post.isSome && sameBase v w) && !(v.localParts.isSome && sameBase v w)

def holds (c : Condition) (v : Version) : Bool :=
  match c.relation, c.operand with
  | .identical, .literal s => v.text == lower s
  | .equal, o => equals v o
  | .notEqual, o => !equals v o
  | .compatible, .series w stem => w.le v.withoutLocal && beginsLike v stem
  | .atMost, .version w => v.withoutLocal.le w
  | .atLeast, .version w => w.le v.withoutLocal
  | .below, .version w => isBelow v w
  | .above, .version w => isAbove v w
  | _, _ => false

end Condition

/-- Versions before a release are met only by conditions that speak of such. -/
def accepts (cs : List Condition) (v : Version) : Bool :=
  match cs.mapM (·.namesPrerelease?) with
  | none => false
  | some names => !(v.isPrerelease && !names.any id) && cs.all (·.holds v)

def isValidVersion : Bool := (Version.parse? s).isSome

/-- Whether a version meets a specification; what cannot be read meets none. -/
def matchesSpec (version spec : String) : Bool :=
  match Version.parse? version, conditions? spec with
  | some v, some cs => accepts cs v
  | _, _ => false

end SecScan.Packages
