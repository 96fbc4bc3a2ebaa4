import SecScan.Embedded.Language
import SecScan.Syntax.Tree

/-! Commands: they print, change files, start programs, and may end early. What was done until then
stays done. -/
namespace SecScan.Command

open Files (Disk Workspace)

structure Host where
  work : Workspace := {}
  programs : Programs := {}
  parse : String → Try Syntax.Module
  yaml : String → Embedded.YamlResult
  input : List String := []
  out : String := ""

inductive Halt where
  | fault (f : Fault)
  | complaint (message : String)
  | usage
  | done

abbrev Act := EStateM Halt Host

def print (s : String) : Act Unit := modify fun h => { h with out := h.out ++ s }

def say (line : String) : Act Unit := print (line ++ "\n")

def sayAll (lines : List String) : Act Unit := lines.forM say

def demand : Try α → Act α
  | .ok a => return a
  | .error f => throw (.fault f)

def work : Act Workspace := return (← get).work

def setWork (w : Workspace) : Act Unit := modify fun h => { h with work := w }

def change (f : Workspace → Try Workspace) : Act Unit := do setWork (← demand (f (← work)))

def changeDisk (f : Disk → Try Disk) : Act Unit := change fun w => do return { w with disk := ← f w.disk }

def readLine : Act String := do
  match (← get).input with
  | [] => return ""
  | l :: rest =>
    modify fun h => { h with input := rest }
    return l

structure Ending where
  code : Nat
  output : String
  fault : Option Fault := none

/-- Runs a command. What it prints is part of how it ends. -/
def execute (a : Act Unit) (h : Host) : Ending × Host :=
  match a.run { h with out := "" } with
  | .ok _ h => (⟨0, h.out, none⟩, h)
  | .error e h => (match e with
    | .fault f => ⟨1, h.out, some f⟩
    | .complaint m => ⟨1, h.out ++ "Error: " ++ m ++ "\n", none⟩
    | .usage => ⟨2, h.out, none⟩
    | .done => ⟨0, h.out, none⟩, h)

end SecScan.Command
