import SecScan.Pipeline.Run
import SecScan.Proofs.Ir.References
import SecScan.Proofs.Store.History

/-!
Program graphs that are served from the store. The store knows a file by where it is and what it holds. So what a
session is served is the graph of the session that stored it, under the settings of that session and with the path that
it was given (`served_after_parse`).
-/

namespace SecScan.Pipeline

open SecScan.Path Store Run

open Json (image depth levelLimit)
open Store (projectRoot manifestPath)

variable {file file' : String} {s : Session} {g : Store.Graph} {w : Files.Workspace}

def ownGraph (s : Session) (source file : String) : Try Store.Graph :=
  (s.parse source >>= Ir.parse { stripDocstrings := s.config.stripDocstrings } s.yaml file).map Store.Graph.ofIr

namespace Run

/-- Where nothing is stored, a session takes its own graph and tries to store it. -/
theorem programGraph_of_none {source : String} (h : storedGraph s file = .ok none) :
    programGraph s source file = (ownGraph s source file, match ownGraph s source file with
      | .ok g => if isFile file then { s with work := (save s.work g file).2 } else s
      | .error _ => s) := by
  unfold programGraph ownGraph
  rw [h]
  cases s.parse source >>= Ir.parse { stripDocstrings := s.config.stripDocstrings } s.yaml file <;> rfl

/-- Where nothing is stored, a session stores the graph that it makes of a file. -/
theorem programGraph_of_own {source : String} (h : storedGraph s file = .ok none)
    (hown : ownGraph s source file = .ok g) (hfile : isFile file = true) :
    programGraph s source file = (.ok g, { s with work := (save s.work g file).2 }) := by
  rw [programGraph_of_none h, hown]
  simp [hfile]

theorem programGraph_of_some (h : storedGraph s file = .ok (some g))
    (source : String) : programGraph s source file = (.ok g, s) := by
  unfold programGraph
  rw [h]

theorem storedGraph_eq {s : Session} {file : String} (hfile : isFile file = true) {x : Store.Graph × Value}
    (hload : loadFile s.work file none = .ok (some x)) : storedGraph s file = .ok (some x.1) := by
  rw [storedGraph, if_pos hfile, hload]
  rfl

end Run

theorem ne_empty_of_isFile (h : isFile file = true) : file ≠ "" := by
  rintro rfl
  exact absurd h (by decide)

example : isFile "m.py" = true ∧ isFile "" = false := by decide +kernel

/-- A graph that was stored under one path is found under every path to the same file. -/
theorem loadFile_after_save {w' : Files.Workspace} {cache : String} (hw : w.Rooted)
    (hcwd : normalize w.cwd = w.cwd) (hne : file ≠ "") (hne' : file' ≠ "") (hthere : (w.file? file).isSome = true)
    (hinside : isAbsolute file = true → isBelow w.cwd file = true)
    (hmanifest : w.absolute file ≠ w.absolute (manifestPath w.cwd)) (hdepth : depth g.value ≤ levelLimit + 2)
    (hsame : w.absolute file' = w.absolute file) (hsave : save w g file none = (.ok cache, w')) :
    ∃ header, loadFile w' file' none = .ok (some (g.stored, header)) := by
  have hproject : projectRoot w none = w.cwd := by
    change absolute w.cwd w.cwd = _
    rw [absolute_of_isAbsolute hw, hcwd]
  have hroot : isAbsolute (projectRoot w none) = true := by
    rw [hproject]
    exact hw
  have hsource : w.absolute (sourceIn (projectRoot w none) file) = w.absolute file :=
    absolute_sourceIn hroot (by rw [hproject]; rfl)
  have hpresent : (w.file? (sourceIn (projectRoot w none) file)).isSome = true := by
    rw [Files.Workspace.file?_congr (sourceIn_ne_empty hroot) hne hsource]
    exact hthere
  have hsaves := saves_save w g file none
  rw [hsave, rootFor_eq_projectRoot hcwd hw fun _ => hinside] at hsaves
  exact hsaves.loadFile_eq hw hpresent (sourceIn_ne_empty hroot) hne' (hsource.trans hsame.symm)
    (graphPath_ne_empty _ _) (graphPath_apart hroot _) (by rw [hproject, hsame]; exact hmanifest) hdepth

theorem loadFile_congr (hne : file ≠ "") (hne' : file' ≠ "")
    (hsame : w.absolute file' = w.absolute file) (root : Option String) :
    loadFile w file' root = loadFile w file root := by
  have hname : ∀ r, Store.Manifest.nameOf w r file' = Store.Manifest.nameOf w r file := by
    intro r
    rw [Store.Manifest.nameOf, Store.Manifest.nameOf, hsame]
  have hhash := fileHash_congr (Files.Workspace.file?_congr hne' hne hsame)
  unfold loadFile Store.Manifest.isFresh Store.Manifest.recorded?
  simp [hname, hhash]

theorem storedGraph_congr {t : Session} (hfile : isFile file = true) (hfile' : isFile file' = true)
    (hwork : t.work = s.work) (hsame : s.work.absolute file' = s.work.absolute file) :
    storedGraph t file' = storedGraph s file := by
  rw [storedGraph, storedGraph, if_pos hfile, if_pos hfile', hwork,
    loadFile_congr (ne_empty_of_isFile hfile) (ne_empty_of_isFile hfile') hsame]

/-- What two sessions get that share a store, one after the other, for a file that stays as it is, under whatever paths.
If the first is served, the second is served the same. If the first makes a graph and stores it, the second is served
that graph as its text shows it, under whatever settings; it would have made the same itself with the same settings and
path, if the text shows all of the graph. If the second is not served, it takes what it makes itself. -/
theorem served_after_parse {s t : Session} {source file file' : String} (hw : s.work.Rooted)
    (hcwd : Path.normalize s.work.cwd = s.work.cwd) (hfile : isFile file = true) (hfile' : isFile file' = true)
    (hthere : (s.work.file? file).isSome = true)
    (hinside : Path.isAbsolute file = true → Path.isBelow s.work.cwd file = true)
    (hmanifest : s.work.absolute file ≠ s.work.absolute (manifestPath s.work.cwd))
    (hsame : s.work.absolute file' = s.work.absolute file) (hwork : t.work = (programGraph s source file).2.work) :
    (∀ g, storedGraph s file = .ok (some g) →
      programGraph s source file = (.ok g, s) ∧ programGraph t source file' = (.ok g, t))
    ∧ (∀ g cache, storedGraph s file = .ok none → ownGraph s source file = .ok g →
      (Store.save s.work g file none).1 = .ok cache → depth g.value ≤ levelLimit + 2 →
      (programGraph s source file).1 = .ok g
      ∧ ∃ g', programGraph t source file' = (.ok g', t) ∧ g'.value = image g.value
        ∧ (t.parse source = s.parse source → t.yaml = s.yaml → t.config.stripDocstrings = s.config.stripDocstrings →
          file' = file → image g.value = g.value → ∃ own, ownGraph t source file' = .ok own ∧ g'.value = own.value))
    ∧ (storedGraph t file' = .ok none → (programGraph t source file').1 = ownGraph t source file') := by
  refine ⟨?_, ?_, ?_⟩
  · intro g hg
    have hfirst := programGraph_of_some hg source
    rw [hfirst] at hwork
    exact ⟨hfirst, programGraph_of_some ((storedGraph_congr hfile hfile' hwork hsame).trans hg) source⟩
  · intro g cache hnone hown hsave hdepth
    rw [programGraph_of_own hnone hown hfile] at hwork ⊢
    have hsaved : Store.save s.work g file none = (.ok cache, t.work) := Prod.ext hsave hwork.symm
    obtain ⟨header, hload⟩ := loadFile_after_save hw hcwd (ne_empty_of_isFile hfile) (ne_empty_of_isFile hfile') hthere
      hinside hmanifest hdepth hsame hsaved
    refine ⟨rfl, g.stored, programGraph_of_some (storedGraph_eq hfile' hload) source, g.value_stored, ?_⟩
    rintro hparse hyaml hstrip rfl himage
    refine ⟨g, ?_, g.value_stored.trans himage⟩
    rw [← hown, ownGraph, ownGraph, hparse, hyaml, hstrip]
  · intro hnone
    rw [programGraph_of_none hnone]

/-! ## A module with a docstring -/

def documentedText : String := "\"\"\"doc\"\"\"\nx = 1\n"

def documented : Syntax.Module :=
  ⟨[.expr ⟨1, 0, 1, 9⟩ (.constant ⟨1, 0, 1, 9⟩ (.text "doc") none),
    .assign ⟨2, 0, 2, 5⟩ [.name ⟨2, 0, 2, 1⟩ "x" .store] (.constant ⟨2, 4, 2, 5⟩ (.int 1) none) none]⟩

def documentedFile : Files.Workspace :=
  { oneFile "/p" with
    disk := (oneFile "/p").disk.put ((oneFile "/p").absolute "/p/m.py") (.file (.text documentedText) 0.0) }

def documenting (strip : Bool) (work : Files.Workspace) : Session :=
  { config := { graphs := true, stripDocstrings := strip }, parse := fun _ => .ok documented, yaml := fun _ => .scalar
    work }

theorem work_documenting {v : Files.Workspace} {cache : String}
    (hnone : storedGraph (documenting true v) "m.py" = .ok none)
    (hown : ownGraph (documenting true v) documentedText "m.py" = .ok g)
    (hsaved : save v g "m.py" none = (.ok cache, w)) :
    (programGraph (documenting true v) documentedText "m.py").2.work = w := by
  rw [programGraph_of_own hnone hown (by decide)]
  exact congrArg Prod.snd hsaved

def nodeCount (v : Value) : Nat := (v.listAt "nodes").length

theorem ownGraph_documenting (work : Files.Workspace) :
    (∃ g, ownGraph (documenting true work) documentedText "m.py" = .ok g ∧ nodeCount (image g.value) = 3
      ∧ depth g.value ≤ levelLimit + 2 ∧ (linesSoFar (records g)).2 = none)
    ∧ ∃ g, ownGraph (documenting false work) documentedText "m.py" = .ok g ∧ nodeCount g.value = 4 := by
  have hstripped : ∃ g ∈ (ownGraph (documenting true documentedFile) documentedText "m.py").toOption,
      nodeCount (image g.value) = 3 ∧ depth g.value ≤ levelLimit + 2
      ∧ (linesSoFar (records g)).2.isNone = true := by
    decide +kernel
  have hkept : ∃ g ∈ (ownGraph (documenting false documentedFile) documentedText "m.py").toOption,
      nodeCount g.value = 4 := by
    decide +kernel
  obtain ⟨g, hg, hcount, hdepth, hnone⟩ := Ir.exists_ok hstripped
  obtain ⟨g', hg', hcount'⟩ := Ir.exists_ok hkept
  exact ⟨⟨g, hg, hcount, hdepth, Option.isNone_iff_eq_none.mp hnone⟩, g', hg', hcount'⟩

theorem rooted_documentedFile : documentedFile.Rooted := by
  unfold Files.Workspace.Rooted
  decide

theorem apart_documentedFile :
    documentedFile.absolute "m.py" ≠ documentedFile.absolute (manifestPath documentedFile.cwd) := by
  rw [show documentedFile.absolute "m.py" = "/p/m.py" by decide, show documentedFile.cwd = "/p" from rfl,
    shelf_project.absolute (by simp [shelf_project.manifest])]
  exact shelf_project.source_ne shelf_project.manifest (by decide)

/-- A session that strips docstrings finds nothing stored, and stores what it makes. -/
theorem documented_stored : ∃ g cache, storedGraph (documenting true documentedFile) "m.py" = .ok none
    ∧ ownGraph (documenting true documentedFile) documentedText "m.py" = .ok g
    ∧ (save documentedFile g "m.py" none).1 = .ok cache ∧ depth g.value ≤ levelLimit + 2
    ∧ nodeCount (image g.value) = 3 := by
  obtain ⟨⟨g, hown, hcount, hdepth, hrecords⟩, -⟩ := ownGraph_documenting documentedFile
  have honly : documentedFile.disk.Only (way "/p") projectSources :=
    (only_oneFile "/p").put (by decide)
  obtain ⟨hroom, hload⟩ := shelf_project.room rooted_documentedFile rfl honly
  have hproject : projectRoot documentedFile none = "/p" := by decide
  obtain ⟨-, w, hsave, -⟩ := hroom.save_kept
    (show rootFor _ "m.py" none = "/p" by decide) (show _ = "/p/m.py" by decide) (by decide) rfl (by simp [keptFiles])
    hrecords .empty hload rfl
  refine ⟨g, _, ?_, hown, by rw [hsave], hdepth, hcount⟩
  rw [storedGraph, if_pos (by decide), show (documenting true documentedFile).work = documentedFile from rfl,
    loadFile_of_empty (by rw [hproject]; exact hload)]
  rfl

/-- A session that keeps docstrings is served the graph of one that strips them, by another path to the file. -/
theorem stripped_served : ∃ g, ownGraph (documenting true documentedFile) documentedText "m.py" = .ok g
    ∧ ∃ w, w = (programGraph (documenting true documentedFile) documentedText "m.py").2.work
      ∧ ∃ g', programGraph (documenting false w) documentedText "/p/m.py" = (.ok g', documenting false w)
        ∧ g'.value = image g.value := by
  obtain ⟨g, cache, hnone, hown, hsave, hdepth, -⟩ := documented_stored
  obtain ⟨w, hw⟩ : ∃ w, w = (programGraph (documenting true documentedFile) documentedText "m.py").2.work := ⟨_, rfl⟩
  refine ⟨g, hown, w, hw, ?_⟩
  have hwork : (documenting false w).work = w := rfl
  obtain ⟨-, hstored, -⟩ := @served_after_parse (documenting true documentedFile) (documenting false w) documentedText
    "m.py" "/p/m.py" rooted_documentedFile (by decide) (by decide) (by decide) (by decide) (by decide)
    apart_documentedFile (by decide) (hwork.trans hw)
  obtain ⟨-, g', hg', hvalue, -⟩ := hstored g cache hnone hown hsave hdepth
  exact ⟨g', hg', hvalue⟩

/-- It is not the graph that the session would have made itself. -/
theorem stripped_not_own : ∃ w, w = (programGraph (documenting true documentedFile) documentedText "m.py").2.work
    ∧ ∃ g own, (programGraph (documenting false w) documentedText "m.py").1 = .ok g
      ∧ ownGraph (documenting false w) documentedText "m.py" = .ok own ∧ g.value ≠ own.value := by
  obtain ⟨g, cache, hnone, hown, hsave, hdepth, hcount⟩ := documented_stored
  obtain ⟨w, hw⟩ : ∃ w, w = (Store.save documentedFile g "m.py" none).2 := ⟨_, rfl⟩
  have hsaved : Store.save documentedFile g "m.py" none = (.ok cache, w) := Prod.ext hsave hw.symm
  obtain ⟨header, hload⟩ := loadFile_after_save rooted_documentedFile (by decide) (by decide)
    (show "m.py" ≠ "" by decide) (by decide) (by decide) apart_documentedFile hdepth rfl hsaved
  have hstored : storedGraph (documenting false w) "m.py" = .ok (some g.stored) :=
    @storedGraph_eq (documenting false w) "m.py" (by decide) _ hload
  obtain ⟨-, own, hown', hcount'⟩ := ownGraph_documenting w
  refine ⟨w, ?_, g.stored, own, ?_, hown', ?_⟩
  · exact (work_documenting hnone hown hsaved).symm
  · rw [programGraph_of_some hstored]
  · intro heq
    have hcounts := congrArg nodeCount (g.value_stored.symm.trans heq)
    rw [hcount, hcount'] at hcounts
    exact absurd hcounts (by decide)

end SecScan.Pipeline
