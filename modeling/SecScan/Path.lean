import SecScan.Text.Search

/-! Paths as text: names between slashes. -/
namespace SecScan.Path

open Text

variable (p : String)

def isAbsolute : Bool := hasPrefix p "/"

/-- The directory part with its slash, and the name behind it. -/
def cut : String × String :=
  match lastIndex? p "/" with
  | some i => (take (i + 1) p, drop (i + 1) p)
  | none => ("", p)

def name : String := (cut p).2

/-- The directory part; a slash at its end is dropped unless there is nothing else. -/
def parent : String :=
  let d := (cut p).1
  if d.toList.all (· == '/') then d
  else String.ofList (d.toList.reverse.dropWhile (· == '/')).reverse

/-- The ending of a name from its last dot on; dots at the start do not count. -/
def extension : String :=
  let n := name p
  match lastIndex? n "." with
  | some i => if (take i n).toList.all (· == '.') then "" else drop i n
  | none => ""

def join (a b : String) : String :=
  if isAbsolute b then b
  else if a == "" || hasSuffix a "/" then a ++ b
  else a ++ "/" ++ b

def joinAll (a : String) (l : List String) : String := l.foldl join a

/-- One name more on a way that is kept from its end; at the root of an absolute one `..` leads nowhere. -/
def normalizeStep (absolute : Bool) (done : List String) (part : String) : List String :=
  if part == "" || part == "." then done
  else if part != ".." then part :: done
  else
    match done with
    | [] => if absolute then [] else [".."]
    | ".." :: _ => ".." :: done
    | _ :: rest => rest

/-- The names of a path without the empty ones, and with `..` followed as far as it goes. -/
def parts : List String := ((split p "/").foldl (normalizeStep (isAbsolute p)) []).reverse

/-- Exactly two leading slashes are kept. -/
def root : String :=
  if hasPrefix p "//" && !Text.hasPrefix p "///" then "//"
  else if isAbsolute p then "/" else ""

def normalize : String :=
  let s := root p ++ String.intercalate "/" (parts p)
  if s == "" then "." else s

def absolute (cwd p : String) : String := normalize (join cwd p)

/-- How many names two ways have in common at their heads. -/
def commonLength : List String → List String → Nat
  | a :: as, b :: bs => if a == b then commonLength as bs + 1 else 0
  | _, _ => 0

def relative (start p : String) : String :=
  let a := parts start
  let b := parts p
  let n := commonLength a b
  let l := List.replicate (a.length - n) ".." ++ b.drop n
  if l.isEmpty then "." else String.intercalate "/" l

def pieces : List String := (split p "/").filter fun s => s != "" && s != "."

/-- A path below a directory without the names that say nothing; one that is absolute stands alone. -/
def below (dir p : String) : String :=
  let names := "/".intercalate (pieces p)
  if isAbsolute p then root p ++ names else if names.isEmpty then dir else join dir names

def nameLimit : Nat := 255

def isShort : Bool := (pieces p).all fun n => n.utf8ByteSize ≤ nameLimit

/-- Whether an absolute path is a directory or stands below it. -/
def isBelow (dir p : String) : Bool := (parts dir).isPrefixOf (parts p)

end SecScan.Path
