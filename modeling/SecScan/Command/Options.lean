import SecScan.Data

/-! Words of a command line and what they may be. -/
namespace SecScan.Command

open Files (Workspace)

structure PathRule where
  present : Bool := false
  files : Bool := true
  dirs : Bool := true

inductive Takes where
  | nothing
  /-- Nothing; another option takes it back. -/
  | switch (off : String)
  | text
  | whole
  | choice (names : List String)
  | path (rule : PathRule)

structure Opt where
  name : String
  takes : Takes
  about : String
  usual : Option String := none
  told : Bool := false
  required : Bool := false
  /-- Whether each value counts, and not the last one alone. -/
  gathers : Bool := false

/-- A command: its name, what it does, the argument it has to have, and its options. -/
structure Spec where
  name : String
  about : String
  argument : Option (String × PathRule) := none
  options : List Opt := []

def helpOption : Opt := { name := "--help", takes := .nothing, about := "Show this message and exit." }

def Spec.allOptions (s : Spec) : List Opt := s.options ++ [helpOption]

/-- What was given on a command line: options with their values, in order, and the other words. -/
structure Given where
  options : List (String × String) := []
  words : List String := []

namespace Given

def withOption (name value : String) (g : Given) : Given := { g with options := (name, value) :: g.options }

def withWord (w : String) (g : Given) : Given := { g with words := w :: g.words }

variable (g : Given) (name : String)

def all : List String := (g.options.filter (·.1 == name)).map (·.2)

def last? : Option String := (g.all name).getLast?

def isSet : Bool := g.last? name == some "on"

end Given

/-- How an option that was named is read: as set to a value, or with the value to follow. -/
inductive Reading where
  | fixed (name value : String)
  | follows (name : String)

def Spec.reading? (s : Spec) (word : String) : Option Reading :=
  s.allOptions.findSome? fun o => match o.takes with
    | .nothing => if o.name == word then some (.fixed o.name "on") else none
    | .switch off =>
      if o.name == word then some (.fixed o.name "on")
      else if off == word then some (.fixed o.name "off") else none
    | _ => if o.name == word then some (.follows o.name) else none

def isOption (word : String) : Bool := Text.hasPrefix word "-" && 1 < word.length

def cutValue (word : String) : String × Option String :=
  match Text.split word "=" with
  | [] | [_] => (word, none)
  | name :: rest => (name, some ("=".intercalate rest))

/-- Reads the words of a command line; none if they name an unknown option or leave one without its
value. -/
def Spec.read (s : Spec) : List String → Option Given
  | [] => some {}
  | word :: rest =>
    if word == "--" then some { words := rest }
    else if !isOption word then (s.read rest).map (·.withWord word)
    else match s.reading? (cutValue word).1, (cutValue word).2 with
      | none, _ => none
      | some (.fixed ..), some _ => none
      | some (.fixed name value), none => (s.read rest).map (·.withOption name value)
      | some (.follows name), some value => (s.read rest).map (·.withOption name value)
      | some (.follows name), none => match rest with
        | [] => none
        | value :: rest => (s.read rest).map (·.withOption name value)

def PathRule.allows (r : PathRule) (w : Workspace) (p : String) : Bool :=
  let p' := w.absolute p
  if p.isEmpty || !w.disk.has p' then !r.present
  else (r.files || !w.disk.isFile p') && (r.dirs || !w.disk.isDir p')

def Takes.allows (t : Takes) (w : Workspace) (value : String) : Bool :=
  match t with
  | .choice names => names.contains (Text.plain value)
  | .whole => (Value.text value).toWhole.toOption.isSome
  | .path r => r.allows w value
  | _ => true

/-- Whether all that counts of what was given, and what is usual where nothing was given, is allowed. -/
def Spec.allows (s : Spec) (w : Workspace) (g : Given) : Bool :=
  let words := match s.argument with
    | none => g.words.isEmpty
    | some (_, r) => match g.words with
      | [x] => r.allows w x
      | _ => false
  words && s.options.all fun o => match g.last? o.name, o.usual with
    | none, some d => o.takes.allows w d
    | none, none => !o.required
    | some v, _ => if o.gathers then (g.all o.name).all (o.takes.allows w) else o.takes.allows w v

namespace Given

variable (g : Given)

def text (s : Spec) (name : String) : Option String :=
  (g.last? name).or ((s.options.find? (·.name == name)).bind (·.usual))

/-- The value of an option that has a choice; letter case does not matter. -/
def chosen (s : Spec) (name : String) : Option String := (g.text s name).map Text.plain

def whole (s : Spec) (name : String) : Int :=
  ((g.text s name).bind fun t => (Value.text t).toWhole.toOption).getD 0

end Given

end SecScan.Command
