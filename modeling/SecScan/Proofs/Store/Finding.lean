import SecScan.Proofs.Store.Room

/-!
Finding a stored graph. What is found is what the manifest leads to (`loadFile_eq_some`), and right after a
graph was stored it is found (`loadFile_save`), if storing and finding take the same root and the path leads
to the same file from there as from the current directory.
-/

namespace SecScan.Store

open SecScan.Path Manifest

open Json (image depth levelLimit)
open Files (Workspace Content)

variable {w : Workspace} {file root : String}

/-- What is kept in a file, if it can be read. -/
theorem read_toOption (w : Workspace) (version : Value) (cache : String) :
    (if w.has cache then (read w version cache).toOption else none)
      = (w.file? cache).bind fun c => (readLines version c).toOption := by
  have hfile : w.file? cache = (w.content cache).toOption := rfl
  cases hc : w.content cache with
  | ok c =>
    rw [hc] at hfile
    have hhas : w.has cache = true := Workspace.has_of_file? hfile
    rw [if_pos hhas, hfile, read, hhas, hc]
    rfl
  | error e =>
    rw [hc] at hfile
    rw [hfile, read, hc]
    cases w.has cache <;> rfl

theorem isFresh_iff {m : Manifest} : m.isFresh w root file = true ↔
    ∃ c e, w.file? file = some c ∧ m.recorded? w root file = some e
      ∧ e.hash = .text (Digest.sha256Bytes c.toBytes) := by
  have hhash : fileHash w file = (w.file? file).map fun c => Digest.sha256Bytes c.toBytes := rfl
  have htext : ∀ {v : Value} {s : String}, (v.text? == some s) = true ↔ v = .text s := by
    intro v s
    cases v <;> simp [Value.text?]
  unfold isFresh
  rw [hhash]
  cases w.file? file with
  | none => simp
  | some c =>
    cases m.recorded? w root file with
    | none => simp
    | some e => simp [htext]

theorem Entry.cachePath_eq_ok {e : Entry} {cache : String} : e.cachePath = .ok cache ↔ e.cache = .text cache := by
  unfold cachePath
  cases e.cache <;> simp

/-- What a graph is found by: a readable manifest with an entry for the file, whose hash is that of what the
file holds, and a readable file where the entry says that the graph is. -/
theorem loadFile_eq_some {root : Option String} {x : Graph × Value} :
    loadFile w file root = .ok (some x) ↔ ∃ m e c cache k, load w formatVersion (projectRoot w root) = .ok m
      ∧ m.recorded? w (projectRoot w root) file = some e
      ∧ w.file? file = some c ∧ e.hash = .text (Digest.sha256Bytes c.toBytes)
      ∧ e.cache = .text cache ∧ w.file? cache = some k ∧ readLines formatVersion k = .ok x := by
  have hkept : ∀ {cache : String}, (if w.has cache then (read w formatVersion cache).toOption else none) = some x ↔
      ∃ k, w.file? cache = some k ∧ readLines formatVersion k = .ok x := by
    intro cache
    rw [read_toOption, Option.bind_eq_some_iff]
    simp [toOption_eq_some]
  unfold loadFile
  simp only []
  constructor
  · intro h
    obtain ⟨m, hm, h⟩ := bind_eq_ok.mp h
    split at h
    · next hfresh =>
      obtain ⟨c, e, hc, he, hh⟩ := isFresh_iff.mp hfresh
      rw [he] at h
      obtain ⟨cache, hcache, h⟩ := bind_eq_ok.mp h
      obtain ⟨k, hk, hread⟩ := hkept.mp (Except.ok.inj h)
      exact ⟨m, e, c, cache, k, hm, he, hc, hh, Entry.cachePath_eq_ok.mp hcache, hk, hread⟩
    · cases h
  · rintro ⟨m, e, c, cache, k, hm, he, hc, hh, hcache, hk, hread⟩
    rw [hm]
    simp only [bind, Except.bind, isFresh_iff.mpr ⟨c, e, hc, he, hh⟩, ↓reduceIte, he, Entry.cachePath_eq_ok.mpr hcache]
    exact congrArg Except.ok (hkept.mpr ⟨k, hk, hread⟩)

theorem projectRoot_congr {w' : Workspace} (h : w'.cwd = w.cwd) (root : Option String) :
    projectRoot w' root = projectRoot w root := by
  rw [projectRoot, projectRoot, h, Workspace.absolute_congr h]

theorem rootFor_eq_projectRoot (hcwd : normalize w.cwd = w.cwd) (hw : w.Rooted)
    {root : Option String} (hinside : root = none → isAbsolute file = true → isBelow w.cwd file = true) :
    rootFor w file root = projectRoot w root := by
  have hdir : w.absolute w.cwd = w.cwd := by rw [Workspace.absolute, absolute_of_isAbsolute hw, hcwd]
  cases root with
  | some r =>
    by_cases hr : r = "" <;> simp [rootFor, projectRoot, hr, Option.filter]
  | none =>
    have hproject : projectRoot w none = w.cwd := hdir
    rw [hproject, rootFor]
    split
    · next habs =>
      obtain ⟨hway, hup⟩ := relative_of_isBelow habs (hinside rfl habs)
      simp [hway, hup]
    · rfl

/-- A file that is named from a root is found from the current directory, if its path leads to the same. -/
theorem absolute_sourceIn (hroot : isAbsolute root = true)
    (hsame : absolute root file = w.absolute file) : w.absolute (sourceIn root file) = w.absolute file := by
  unfold sourceIn
  split
  · rfl
  · rw [← hsame, Workspace.absolute, absolute_of_isAbsolute (isAbsolute_absolute hroot file)]
    rw [absolute, normalize_idem (isAbsolute_join hroot file)]

theorem sourceIn_ne_empty (hroot : isAbsolute root = true) : sourceIn root file ≠ "" := by
  intro h
  have habs : isAbsolute (sourceIn root file) = true := by
    unfold sourceIn
    split
    · assumption
    · exact isAbsolute_absolute hroot file
  rw [h] at habs
  exact absurd habs (by decide)

theorem Manifest.recorded?_record (m : Manifest) (w w' : Workspace) (root source cache hash file : String) :
    (m.record w root source cache hash).recorded? w' root file =
      if nameOf w' root file = nameOf w root source then
        some ⟨.text (nameOf w root source), .text hash, .text cache, .int w.seconds⟩
      else m.recorded? w' root file :=
  lookup_putField _ _ _ _

/-- A graph that is stored for a file that is there is found by every path to the file. -/
theorem Saves.loadFile_eq {w' : Workspace} {g : Graph} {source cache c : String} {root : Option String}
    (h : Saves w g (projectRoot w root) source cache (.ok c, w')) (hw : w.Rooted)
    (hfile : (w.file? source).isSome = true) (hsource : source ≠ "") (hne : file ≠ "")
    (hsame : w.absolute source = w.absolute file) (hcache : cache ≠ "")
    (hapart : w.absolute cache ≠ w.absolute (manifestPath (projectRoot w root)))
    (hmanifest : w.absolute file ≠ w.absolute (manifestPath (projectRoot w root)))
    (hdepth : depth g.value ≤ levelLimit + 2) :
    ∃ header, loadFile w' file root = .ok (some (g.stored, header)) := by
  cases h with
  | absent hk hplace habsent =>
    rw [Workspace.file?_place hw hplace] at habsent
    split at habsent
    · cases habsent
    · rw [habsent] at hfile
      cases hfile
  | @entered _ c w1 _ m hk hplace hload hc hsave =>
    obtain ⟨h, l, rfl, hlines, hversion, hheader⟩ := hk
    obtain ⟨hcwd1, -⟩ := Workspace.cwd_place hplace
    have hcwd' := cwd_save hsave
    have hw1 : w1.Rooted := hw.congr hcwd1
    have habs1 := Workspace.absolute_congr hcwd1
    have habs' := Workspace.absolute_congr (hcwd'.trans hcwd1)
    have hroot := projectRoot_congr (hcwd'.trans hcwd1) root
    have hm := load_saved ((sound_load hload).record w1 _ source cache _) hw1 hsave formatVersion
    have hkept : w'.file? cache = some (textOf l) := by
      rw [file?_save hw1 hsave (by rw [habs1, habs1]; exact hapart), Workspace.file?_place hw hplace,
        if_pos ⟨hcache, rfl⟩]
    have hfile' : w'.file? file = some c := by
      rw [file?_save hw1 hsave (by rw [habs1, habs1]; exact hmanifest), ← hc]
      exact Workspace.file?_congr hne hsource (by rw [habs1, habs1, hsame])
    have hname : nameOf w' (projectRoot w root) file = nameOf w1 (projectRoot w root) source := by
      rw [nameOf, nameOf, habs', habs1, hsame]
    have hentry := m.recorded?_record w1 w' (projectRoot w root) source cache (Digest.sha256Bytes c.toBytes) file
    rw [if_pos hname] at hentry
    rw [← hroot] at hm hentry
    exact ⟨image h.value, loadFile_eq_some.mpr ⟨_, _, c, cache, textOf l, hm, hentry, hfile', rfl, rfl, hkept,
      readLines_lines hlines hversion hheader hdepth⟩⟩

/-- Right after a graph was stored for a file that is there, a graph is found that shows the same as far as text
does. Without a root the file has to be below the current directory, and its path has to lead to the same file
from the root as from the current directory. -/
theorem loadFile_save {w w' : Workspace} {g : Graph} {file cache : String} {root : Option String} (hw : w.Rooted)
    (hcwd : normalize w.cwd = w.cwd) (hfile : (w.file? file).isSome = true)
    (hinside : root = none → isAbsolute file = true → isBelow w.cwd file = true)
    (hsame : absolute (projectRoot w root) file = w.absolute file)
    (hmanifest : w.absolute file ≠ w.absolute (manifestPath (projectRoot w root)))
    (hdepth : depth g.value ≤ levelLimit + 2) (hsave : save w g file root = (.ok cache, w')) :
    ∃ g' header, loadFile w' file root = .ok (some (g', header)) ∧ g'.value = image g.value := by
  have hroot : isAbsolute (projectRoot w root) = true := isAbsolute_absolute hw _
  have hsource := absolute_sourceIn hroot hsame
  have hne : file ≠ "" := by
    rintro rfl
    rw [Workspace.file?_eq] at hfile
    cases hfile
  have hthere : (w.file? (sourceIn (projectRoot w root) file)).isSome = true := by
    rw [Workspace.file?_congr (sourceIn_ne_empty hroot) hne hsource]
    exact hfile
  have hsaves := saves_save w g file root
  rw [hsave, rootFor_eq_projectRoot hcwd hw hinside] at hsaves
  obtain ⟨header, hload⟩ := hsaves.loadFile_eq hw hthere (sourceIn_ne_empty hroot) hne hsource
    (graphPath_ne_empty _ _) (graphPath_apart hroot _) hmanifest hdepth
  exact ⟨g.stored, header, hload, g.value_stored⟩

theorem loadFile_of_empty {root : Option String}
    (h : Manifest.load w formatVersion (projectRoot w root) = .ok { version := formatVersion })
    (file : String) : loadFile w file root = .ok none := by
  have hfresh : Manifest.isFresh { version := formatVersion } w (projectRoot w root) file = false := by
    unfold Manifest.isFresh
    cases fileHash w file <;> rfl
  unfold loadFile
  simp only [h, bind, Except.bind, hfresh]
  rfl

/-- A file that is named from the current directory. -/
theorem beside_found : ∃ cache w', save (oneFile "/p") oneNode "m.py" none = (.ok cache, w')
    ∧ ∃ g' header, loadFile w' "m.py" none = .ok (some (g', header)) ∧ g'.value = image oneNode.value := by
  have hrooted : (oneFile "/p").Rooted := by unfold Workspace.Rooted; decide
  obtain ⟨hroom, hempty⟩ := room_oneFile hrooted
  obtain ⟨-, w', hsave, -⟩ := hroom.save_kept (show rootFor _ "m.py" none = "/p" by decide)
    (show sourceIn _ "m.py" = "/p/m.py" by decide) (by decide) rfl (by simp [keptFiles]) records_oneNode .empty
    hempty rfl
  refine ⟨_, w', hsave, loadFile_save hrooted (by decide) (by decide) (by decide) (by decide) ?_ (by decide) hsave⟩
  rw [show projectRoot (oneFile "/p") none = "/p" by decide, show (oneFile "/p").absolute "m.py" = "/p/m.py" by decide,
    shelf_project.absolute (by simp [shelf_project.manifest])]
  exact shelf_project.source_ne shelf_project.manifest (by decide)

/-- The graph of a file outside of the current directory is kept beside the file, and looked for in the current
directory. -/
theorem elsewhere_not_found : ((oneFile "/c").file? "/p/m.py").isSome = true
    ∧ ∃ cache w', save (oneFile "/c") oneNode "/p/m.py" none = (.ok cache, w')
      ∧ loadFile w' "/p/m.py" none = .ok none := by
  have hrooted : (oneFile "/c").Rooted := by unfold Workspace.Rooted; decide
  obtain ⟨hroom, hempty⟩ := room_oneFile hrooted
  obtain ⟨-, w', hsave, hroom', -, hcwd, -⟩ := hroom.save_kept (show rootFor _ "/p/m.py" none = "/p" by decide)
    (show _ = "/p/m.py" by decide) (by decide) rfl (by simp [keptFiles]) records_oneNode .empty hempty rfl
  refine ⟨by decide, _, w', hsave, ?_⟩
  have hproject : projectRoot w' none = "/c" := by
    rw [projectRoot_congr hcwd]
    decide
  -- the manifest of the current directory is none of the files that the project can have
  have hother : normalize (absolute "/c" (manifestPath "/c")) ∉ keptFiles ++ projectSources := by decide +kernel
  have habsent : w'.file? (manifestPath "/c") = none := by
    rw [Workspace.file?_eq, Workspace.absolute, hcwd]
    exact ite_eq_left_iff.mpr fun _ => hroom'.only.file?_eq_none hother
  exact loadFile_of_empty (hproject.symm ▸ Manifest.load_of_absent habsent _) _

end SecScan.Store
