import Mathlib.Tactic.Push
import SecScan.Command.Upkeep
import SecScan.Proofs.Store.Saving

/-!
What putting the graphs of a file in place of those that are stored does to the files of a workspace. The
stored ones are removed before the file is looked at, so they are gone however the import ends
(`old_graphs_discarded`): a file that cannot be read leaves a project with nothing stored
(`failed_import_loses_manifest`), and files elsewhere are never touched.
-/

namespace SecScan.Store

open SecScan.Path
open Files (Workspace)

variable {w : Workspace} {root : String}

/-! ## Storing one graph after the other -/

/-- Where the graph of a file is kept that is named from the root. -/
def placeOf (w : Workspace) (root file : String) : String := graphPath root (w.absolute (sourceIn root file))

/-- The root of a project is given in full. -/
structure IsRoot (w : Workspace) (root : String) : Prop where
  isAbsolute : isAbsolute root = true
  absolute_eq : w.absolute root = root

theorem IsRoot.ne_empty (h : IsRoot w root) : root ≠ "" := by
  rintro rfl
  exact absurd h.isAbsolute (by decide)

theorem IsRoot.congr {w' : Workspace} (h : IsRoot w root) (hcwd : w'.cwd = w.cwd) : IsRoot w' root :=
  ⟨h.isAbsolute, by rw [Workspace.absolute_congr hcwd, h.absolute_eq]⟩

theorem isRoot_absolute (hw : w.Rooted) (p : String) : IsRoot w (w.absolute p) := by
  have habs : isAbsolute (w.absolute p) = true := isAbsolute_absolute hw p
  exact ⟨habs, by rw [Workspace.absolute, absolute_of_isAbsolute habs, hw.normalize_absolute]⟩

theorem rootFor_root (hroot : IsRoot w root) (file : String) : rootFor w file (some root) = root := by
  simp [rootFor, hroot.ne_empty, hroot.absolute_eq]

theorem projectRoot_root (hroot : IsRoot w root) : projectRoot w (some root) = root := by
  simp [projectRoot, Option.filter, hroot.ne_empty, hroot.absolute_eq]

/-- Storing graphs changes no file but those they are kept in and the manifest. -/
theorem file?_saveAll {w' : Workspace} (hw : w.Rooted) (hroot : IsRoot w root)
    {l : List (Value × Graph)} {r : Try Unit} (h : saveAll w root l = (r, w')) {q : String}
    (hmanifest : w.absolute q ≠ w.absolute (manifestPath root))
    (hparts : ∀ file g, (.text file, g) ∈ l → w.absolute q ≠ w.absolute (placeOf w root file)) :
    w'.file? q = w.file? q := by
  fun_induction saveAll w root l generalizing w' with
  | case1 =>
    cases h
    rfl
  | case2 w file g rest ih =>
    have hsaves := saves_save w g file (some root)
    rw [rootFor_root hroot] at hsaves
    -- What storing this one came to is only known through `hsaves`; it must not be evaluated.
    generalize save w g file (some root) = saved at hsaves h
    obtain ⟨r₁, w₁⟩ := saved
    have hcwd := hsaves.cwd_eq
    have habs := Workspace.absolute_congr hcwd
    have hstep := hsaves.file?_eq hw (hparts file g List.mem_cons_self) hmanifest
    cases r₁ with
    | error e =>
      cases h
      exact hstep
    | ok cache =>
      refine (ih w₁ (hw.congr hcwd) (hroot.congr hcwd) h (by rwa [habs, habs]) ?_).trans hstep
      intro file g hmem
      rw [habs, habs, placeOf, habs]
      exact hparts file g (List.mem_cons_of_mem _ hmem)
  | case3 =>
    cases h
    rfl

/-- The graphs that a file holds, each under the file it is about. -/
def partsIn (w : Workspace) (input : String) : Try (List (Value × Graph)) :=
  read w formatVersion (w.absolute input) >>= (·.1.split)

theorem saveFrom_eq (hroot : IsRoot w root) (input : String) : saveFrom w root input = match partsIn w input with
      | .error e => (.error e, w)
      | .ok l => onward (saveAll w root l) (.ok l.length, ·) := by
  unfold saveFrom partsIn
  cases read w formatVersion (w.absolute input) with
  | error e => rfl
  | ok x =>
    simp only [saveProject, projectRoot_root hroot]
    rfl

theorem onward_snd {α β : Type} (x : Try α × Workspace) (y : Try β) : (onward x (y, ·)).2 = x.2 := by
  obtain ⟨r, w⟩ := x
  cases r <;> rfl

theorem file?_saveFrom (hw : w.Rooted) (hroot : IsRoot w root) (input : String)
    {q : String} (hmanifest : w.absolute q ≠ w.absolute (manifestPath root))
    (hparts : ∀ l file g, partsIn w input = .ok l → (.text file, g) ∈ l →
      w.absolute q ≠ w.absolute (placeOf w root file)) :
    (saveFrom w root input).2.file? q = w.file? q := by
  rw [saveFrom_eq hroot]
  cases hl : partsIn w input with
  | error e => rfl
  | ok l =>
    simp only [onward_snd]
    exact file?_saveAll hw hroot rfl hmanifest (fun file g => hparts l file g hl)

/-! ## Storing in place of what was there -/

/-- What is left of the files of a workspace when the graphs of a project have given way to those of a file. -/
structure Replaces (w : Workspace) (root input : String) (r : Try Nat) (left : Workspace) : Prop where
  outside : ∀ q, isBelow (cacheDir root) (w.absolute q) = false → left.file? q = w.file? q
  /-- If no graphs can be had from the file, that is the error, and nothing is left. -/
  refused : ∀ e, partsIn (w.without (cacheDir root)) input = .error e →
    r = .error e ∧ ∀ q, isBelow (cacheDir root) (w.absolute q) = true → left.file? q = none
  /-- Otherwise there is nothing but the manifest and graphs from the file, be it all of them or not. -/
  stored : ∀ l, partsIn (w.without (cacheDir root)) input = .ok l →
    ∀ q, isBelow (cacheDir root) (w.absolute q) = true → left.file? q ≠ none →
      w.absolute q = w.absolute (manifestPath root)
        ∨ ∃ file g, (.text file, g) ∈ l ∧ w.absolute q = w.absolute (placeOf w root file)

theorem replaces_saveFrom (hw : w.Rooted) (hroot : IsRoot w root) (input : String) :
    Replaces w root input (saveFrom (w.without (cacheDir root)) root input).1
      (saveFrom (w.without (cacheDir root)) root input).2 := by
  obtain ⟨v, hv⟩ : ∃ v, w.without (cacheDir root) = v := ⟨_, rfl⟩
  have hcwd : v.cwd = w.cwd := by rw [← hv, Workspace.without]
  have habs := Workspace.absolute_congr hcwd
  have hfile : ∀ q, v.file? q = if isBelow (cacheDir root) (w.absolute q) then none else w.file? q := by
    intro q
    rw [← hv, Workspace.file?_without hw]
  have hframe := fun q => file?_saveFrom (q := q) (hw.congr hcwd) (hroot.congr hcwd) input
  simp only [placeOf, habs] at hframe
  rw [hv]
  refine ⟨?_, ?_, ?_⟩
  · intro q hq
    have houtside : ¬ parts (cacheDir root) <+: parts (w.absolute q) := by
      rw [← List.isPrefixOf_iff_prefix]
      exact Bool.eq_false_iff.mp hq
    rw [hframe q (outside_ne_cached hroot.isAbsolute houtside isName_manifest)
      fun l file g hl hmem => outside_ne_cached hroot.isAbsolute houtside (isName_graphName _), hfile, hq]
    rfl
  · intro e he
    rw [hv] at he
    rw [saveFrom_eq (hroot.congr hcwd), he]
    refine ⟨rfl, fun q hq => ?_⟩
    rw [hfile, if_pos hq]
  · intro l hl q hq hleft
    rw [hv] at hl
    by_contra hnot
    push Not at hnot
    apply hleft
    rw [hframe q hnot.1, hfile, if_pos hq]
    intro l' file g hl' hmem
    cases hl.symm.trans hl'
    exact hnot.2 file g hmem

end SecScan.Store

namespace SecScan.Command

open SecScan.Path
open Files (Workspace Disk)
open Store

/-! ## The command -/

def importEnding : Try Nat → Ending
  | .ok n => ⟨0, "Imported graph cache entries: " ++ toString n ++ "\n", none⟩
  | .error e => ⟨1, "", some e⟩

section Command

variable (host : Host) (root : Option String) {project : String}
  (hproject : host.work.absolute (root.getD host.work.cwd) = project) (input : String)
  (hdir : host.work.disk.isFile (cacheDir project) = false)
include hproject hdir

theorem execute_graphImport : execute (graphImport root input) host =
    let x := saveFrom (host.work.without (cacheDir project)) project input
    (importEnding x.1, { host with work := x.2, out := (importEnding x.1).output }) := by
  have hremove : host.work.disk.removeDir (cacheDir project) = .ok (host.work.without (cacheDir project)).disk := by
    simp only [Disk.removeDir, hdir, Bool.false_eq_true, ↓reduceIte]
    rfl
  unfold execute graphImport projectRoot changeDisk change setWork work say print
  simp only [EStateM.run, bind, EStateM.bind, get, getThe, MonadStateOf.get, EStateM.get, pure, EStateM.pure, hproject,
    hremove, demand, Except.bind, Except.pure, modify, modifyGet, MonadStateOf.modifyGet, EStateM.modifyGet]
  rw [Workspace.without]
  generalize saveFrom _ project input = x
  obtain ⟨r, w⟩ := x
  cases r with
  | error e => rfl
  | ok n => simp [importEnding, EStateM.pure]

/-- An import ends in some way and leaves a workspace where the stored graphs have given way. -/
theorem replaces_graphImport (hw : host.work.Rooted) : ∃ r left,
    execute (graphImport root input) host = (importEnding r, left) ∧ Replaces host.work project input r left.work := by
  have hroot : IsRoot host.work project := hproject ▸ isRoot_absolute hw _
  have hreplaces := replaces_saveFrom hw hroot input
  rw [execute_graphImport host root hproject input hdir]
  generalize saveFrom (host.work.without (cacheDir project)) project input = x at hreplaces
  exact ⟨x.1, _, rfl, hreplaces⟩

/-- It makes no difference to an import what was stored before. -/
theorem graphImport_without :
    execute (graphImport root input) { host with work := host.work.without (cacheDir project) }
      = execute (graphImport root input) host := by
  have hgone : (host.work.without (cacheDir project)).disk.isFile (cacheDir project) = false := by
    rw [Disk.isFile, Workspace.without, Disk.get?_removeTree]
    split
    · rfl
    · exact hdir
  have hagain :=
    execute_graphImport { host with work := host.work.without (cacheDir project) } root hproject input hgone
  simp only [Workspace.without_without] at hagain
  rw [hagain, execute_graphImport host root hproject input hdir]

end Command

/-- However an import ends, the graphs that were stored of the project are gone by then: if no graphs can be had from
the file, nothing is left, and if it stops while storing them, there is only what it has stored itself. It ends in
the same way and leaves the same as if nothing had been stored before, and keeps its hands off all other files. -/
theorem old_graphs_discarded {host : Host} (hw : host.work.Rooted) (root : Option String) {project : String}
    (hproject : host.work.absolute (root.getD host.work.cwd) = project) (input : String)
    (hdir : host.work.disk.isFile (cacheDir project) = false) :
    (∃ r left, execute (graphImport root input) host = (importEnding r, left)
        ∧ Replaces host.work project input r left.work)
      ∧ execute (graphImport root input) { host with work := host.work.without (cacheDir project) }
        = execute (graphImport root input) host :=
  ⟨replaces_graphImport host root hproject input hdir hw, graphImport_without host root hproject input hdir⟩

/-! ## A project with a manifest, and with an empty file to import -/

def spoilt : Host where
  work := {
    disk := (Disk.put {} (manifestPath "/p") (.file (.text "\x7b\x7d") 0.0)).put "/p/in.jsonl" (.file (.text "") 0.0)
    cwd := "/p" }
  parse := fun _ => .error .notText
  yaml := fun _ => .malformed

theorem file?_spoilt (q : String) : spoilt.work.disk.file? q =
    if normalize q = normalize "/p/in.jsonl" then some (.text "")
    else if normalize q = normalize (manifestPath "/p") then some (.text "\x7b\x7d") else none := by
  simp only [spoilt, Disk.file?_put]
  rfl

theorem rooted_spoilt : spoilt.work.Rooted := rfl

theorem isRoot_spoilt : IsRoot spoilt.work "/p" := ⟨rfl, by decide⟩

theorem not_below_spoilt : ¬ parts (cacheDir "/p") <+: parts "/p/in.jsonl" := by
  rw [(parts_cacheDir isRoot_spoilt.isAbsolute).2, show parts "/p/in.jsonl" = ["p", "in.jsonl"] by decide]
  exact fun h => absurd h.length_le (by simp)

theorem isFile_spoilt : spoilt.work.disk.isFile (cacheDir "/p") = false := by
  have habs := (parts_cacheDir isRoot_spoilt.isAbsolute).1
  have hinput := normalize_ne habs (q := "/p/in.jsonl") rfl fun h => not_below_spoilt (h ▸ List.prefix_refl _)
  have hroot := isRoot_spoilt.isAbsolute
  have hmanifest := normalize_ne habs (isAbsolute_manifestPath hroot) (by rw [parts_manifestPath hroot]; simp)
  rw [Disk.isFile_eq, file?_spoilt, if_neg hinput, if_neg hmanifest]
  rfl

theorem partsIn_spoilt : partsIn (spoilt.work.without (cacheDir "/p")) "/p/in.jsonl"
    = .error (.invalid (some "Missing graph metadata")) := by
  have hself : spoilt.work.absolute "/p/in.jsonl" = "/p/in.jsonl" := by decide
  have hbelow : ¬ isBelow (cacheDir "/p") "/p/in.jsonl" = true := by
    rw [isBelow, List.isPrefixOf_iff_prefix]
    exact not_below_spoilt
  have hfile : (spoilt.work.without (cacheDir "/p")).file? "/p/in.jsonl" = some (.text "") := by
    rw [Workspace.file?_without rooted_spoilt, hself, if_neg hbelow, Workspace.file?_eq, if_neg (by decide), hself,
      file?_spoilt, if_pos rfl]
  rw [partsIn, Workspace.absolute_without, hself, read_of_file? hfile]
  rfl

theorem spoilt_discarded : spoilt.work.Rooted ∧ spoilt.work.absolute spoilt.work.cwd = "/p"
    ∧ spoilt.work.disk.isFile (cacheDir "/p") = false
    ∧ (∃ r left, execute (graphImport none "/p/in.jsonl") spoilt = (importEnding r, left)
        ∧ Replaces spoilt.work "/p" "/p/in.jsonl" r left.work)
      ∧ execute (graphImport none "/p/in.jsonl") { spoilt with work := spoilt.work.without (cacheDir "/p") }
        = execute (graphImport none "/p/in.jsonl") spoilt :=
  ⟨rooted_spoilt, isRoot_spoilt.absolute_eq, isFile_spoilt,
    old_graphs_discarded rooted_spoilt none isRoot_spoilt.absolute_eq "/p/in.jsonl" isFile_spoilt⟩

/-- An import that fails does not keep what was there. -/
theorem failed_import_loses_manifest :
    (execute (graphImport none "/p/in.jsonl") spoilt).1 = ⟨1, "", some (.invalid (some "Missing graph metadata"))⟩
      ∧ isBelow (cacheDir "/p") (spoilt.work.absolute (manifestPath "/p")) = true
      ∧ spoilt.work.file? (manifestPath "/p") = some (.text "\x7b\x7d")
      ∧ (execute (graphImport none "/p/in.jsonl") spoilt).2.work.file? (manifestPath "/p") = none := by
  have habs := isAbsolute_manifestPath isRoot_spoilt.isAbsolute
  have hprefix : parts (cacheDir "/p") <+: parts (manifestPath "/p") := by
    rw [parts_manifestPath rfl]
    exact List.prefix_append _ _
  have hself : spoilt.work.absolute (manifestPath "/p") = normalize (manifestPath "/p") :=
    absolute_of_isAbsolute habs
  have hbelow : isBelow (cacheDir "/p") (spoilt.work.absolute (manifestPath "/p")) = true := by
    rwa [hself, isBelow, parts_normalize habs, List.isPrefixOf_iff_prefix]
  have hmanifest : spoilt.work.file? (manifestPath "/p") = some (.text "\x7b\x7d") := by
    have hne : manifestPath "/p" ≠ "" := fun h => absurd (h ▸ habs) (by decide)
    have hinput := normalize_ne habs (q := "/p/in.jsonl") rfl fun h => not_below_spoilt (h ▸ hprefix)
    rw [Workspace.file?_eq, if_neg hne, hself, file?_spoilt, normalize_idem habs, if_neg hinput, if_pos rfl]
  obtain ⟨r, left, hrun, hreplaces⟩ := replaces_graphImport spoilt none isRoot_spoilt.absolute_eq "/p/in.jsonl"
    isFile_spoilt rooted_spoilt
  obtain ⟨rfl, hgone⟩ := hreplaces.refused _ partsIn_spoilt
  rw [hrun]
  exact ⟨rfl, hbelow, hmanifest, hgone _ hbelow⟩

end SecScan.Command
