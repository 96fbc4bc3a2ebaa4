import SecScan.Data

/-! How evenly the characters of a text, or the items of a list, are spread. -/
namespace SecScan.Scan

open Text Text.Pattern

def countChar (c : Char) : List (Char × Nat) → List (Char × Nat)
  | [] => [(c, 1)]
  | (d, n) :: rest => if d == c then (d, n + 1) :: rest else (d, n) :: countChar c rest

/-- Each character with the number of its occurrences. -/
def charCounts (s : String) : List (Char × Nat) := s.foldl (fun l c => countChar c l) []

/-- The entropy in bits of a choice among `total`, the counts being how often each thing is there. -/
def entropyOfCounts (total : Nat) (counts : List Nat) : Float :=
  counts.foldl (fun e k =>
    let p := Float.ofNat k / Float.ofNat total
    e - p * Float.log2 p) 0.0

/-- The entropy of a text in bits per character. -/
def entropy (s : String) : Float := entropyOfCounts s.length ((charCounts s).map (·.2))

def entropyOf (v : Value) : Try Float := do
  if !v.truthy then return 0.0
  match v with
  | .text s => return entropy s
  | _ =>
    let items ← v.each
    items.forM (·.requireFixed)
    let counts := items.foldl (fun l x => Value.enter x ((Value.under? x l).getD 0 + 1) l) []
    return entropyOfCounts items.length (counts.map (·.2))

/-! Finds credentials in a text: by their form, and by assignments of random-looking values. -/

structure Secret where
  kind : String
  text : String
  line : Nat
  confidence : Float

def Secret.value (s : Secret) : Value :=
  .obj [("type", .text s.kind), ("value", .text s.text), ("line", .nat s.line), ("confidence", .float s.confidence)]

def Secret.finding (s : Secret) : Value :=
  .obj [("check_id", .text ("secret." ++ Text.lower (Text.replace s.kind " " "_"))),
    ("message", .text ("Found " ++ s.kind)), ("line", .nat s.line), ("column", .int 1),
    ("severity", .text "CRITICAL")]

def upperOrDigit (c : Char) : Bool := between 'A' 'Z' c || asciiDigit c

def secretForms : List (String × Pattern) :=
  [("AWS Access Key ID", seqs [.alt (seqs [lit "A3T", .one upperOrDigit])
        (alts (["AKIA", "AGPA", "AIDA", "AROA", "AIPA", "ANPA", "ANVA", "ASIA"].map lit)),
       exactly 16 upperOrDigit]),
   ("Private Key", seqs [lit "-----BEGIN ", plus fun c => between 'A' 'Z' c || c == ' ', lit " PRIVATE KEY-----"]),
   ("Google API Key", seqs [lit "AIza", exactly 35 fun c => asciiAlphanumeric c || between '\\' '_' c]),
   ("Slack Token", seqs [lit "xox", .one (among "baprs"), lit "-", opt (.many asciiAlphanumeric 10 (some 48) true)]),
   ("GitHub Token", seqs [lit "ghp_", exactly 36 asciiAlphanumeric]),
   ("Stripe Secret Key", seqs [lit "sk_live_", exactly 24 asciiAlphanumeric])]

/-- A quoted value given to a name that promises a secret; group 1 is the value. -/
def secretAssignment : Pattern :=
  let quote := among "'\""
  seqs [alts (["api_key", "api_secret", "auth_token", "access_token", "secret", "password", "passwd",
        "pwd", "token"].map litAnyCase),
      star isBlank, lit "=", star isBlank, .one quote, .group 1 (plus fun c => !quote c), .one quote]

def entropyThreshold : Float := 3.5

variable (line : String)

def secretForm? (n : Nat) (form : String × Pattern) : Option Secret :=
  (form.2.search line).map fun (i, m) => ⟨form.1, m.text line i, n, 1.0⟩

def assignedSecret? (n : Nat) : Option Secret := do
  let (_, m) ← secretAssignment.search line
  let text ← groupText? line m 1
  if 8 < text.length && entropyThreshold < entropy text then
    some ⟨"High Entropy String", text, n, 0.8⟩
  else none

def secretsOfLine (n : Nat) : List Secret :=
  secretForms.filterMap (secretForm? line n) ++ (assignedSecret? line n).toList

def secrets (content : String) : List Secret :=
  (Text.lines content).zipIdx.flatMap fun (line, i) => secretsOfLine line (i + 1)

end SecScan.Scan
