import SecScan.Proofs.Store.Saving

/-!
When a graph can be stored: if files can be written where the graphs are kept, and the manifest that is
there can be written again (`Room.save_kept`).
-/

namespace SecScan

open List SecScan.Path Json Value

variable {w w' : Workspace} {root source cache hash p q : String} {files sources : List String}

namespace Store

open Json (Writable)
open Files (Workspace Content)

theorem fileHash_congr (h : w'.file? p = w.file? q) : fileHash w' p = fileHash w q := by
  change (w'.file? p).map _ = (w.file? q).map _
  rw [h]

/-- The lines of a file behind the first. -/
def records (g : Graph) : List (Try String) :=
  g.nodes.map (recordLine "node" ·.value) ++ g.edges.map (recordLine "edge" ·.value)
    ++ g.symbols.map (recordLine "symbol" ·.value)

theorem linesSoFar_lines {h : Header} {s : String} (hs : render {} h.value = .ok s) (g : Graph) :
    linesSoFar (lines h g) = (s :: (linesSoFar (records g)).1, (linesSoFar (records g)).2) := by
  have hlines : lines h g = .ok s :: records g := by simp [lines, records, hs]
  rw [hlines]
  rfl

/-! ## Where there is room for graphs -/

/-- A manifest that can be written at any time. -/
structure Manifest.Writable (m : Manifest) : Prop where
  version : Json.Writable m.version
  entries : ∀ e ∈ m.entries, Json.Writable e.2.value

namespace Manifest.Writable

theorem empty : Writable { version := formatVersion } := ⟨writable_text _, by simp⟩

variable {m : Manifest} (h : m.Writable)
include h

theorem record (hw : Json.Writable (.int w.seconds)) (root file cache hash : String) :
    (m.record w root file cache hash).Writable where
  version := h.version
  entries := by
    intro e he
    rcases mem_putField he with rfl | he
    · exact writable_obj (by simp [writable_text, hw])
    · exact h.entries e he

theorem value (ht : Json.Writable (.int m.time)) : Json.Writable m.value := by
  have hentries : Json.Writable (.obj (m.entries.map fun e => (e.1, e.2.value))) :=
    writable_obj (forall_mem_map.mpr h.entries)
  refine writable_obj ?_
  simp only [forall_mem_cons]
  exact ⟨h.version, ht, hentries, by simp⟩

end Manifest.Writable

/-- The file that says at which commit a working copy is. -/
def headFile (root : String) : String := join (join root ".git") "HEAD"

/-- The directories on the way to where the graphs of a project are kept. -/
def way (root : String) : List String := Files.Disk.stops "" (parts (cacheDir root))

theorem graphPath_ne_manifestPath (hroot : isAbsolute root = true) (file : String) :
    graphPath root file ≠ manifestPath root := fun h =>
  graphPath_apart (w := {}) hroot file (by rw [h])

/-- A project with the files that can be kept for it, the manifest among them, and with its sources. -/
structure Shelf (root : String) (files sources : List String) : Prop where
  normal : ∀ p ∈ root :: headFile root :: files ++ sources, isAbsolute p = true ∧ normalize p = p
  nodup : (headFile root :: files ++ sources).Nodup
  manifest : manifestPath root ∈ files
  parent : ∀ p ∈ files, Path.parent p = cacheDir root
  dirs : ∀ q ∈ way root, normalize q = q
  first : root ∈ way root
  last : cacheDir root ∈ (way root).getLast?
  free : ∀ p ∈ headFile root :: files ++ sources, p ∉ "/" :: way root

namespace Shelf

variable (h : Shelf root files sources)
include h

theorem absolute (hp : p ∈ root :: headFile root :: files ++ sources) (w : Workspace) : w.absolute p = p := by
  obtain ⟨habs, hnormal⟩ := h.normal p hp
  rw [Workspace.absolute, absolute_of_isAbsolute habs, hnormal]

theorem ne_empty (hp : p ∈ root :: headFile root :: files ++ sources) : p ≠ "" := by
  rintro rfl
  exact absurd (h.normal _ hp).1 (by decide)

theorem source_ne (hp : p ∈ files) (hq : q ∈ sources) : q ≠ p :=
  ((nodup_append.mp h.nodup.of_cons).2.2 p hp q hq).symm

theorem file?_place (hw : w.Rooted) {c : Content} (hplace : w.place p c = .ok w') (hp : p ∈ files)
    (hq : q ∈ files ++ sources) : w'.file? q = if q = p then some c else w.file? q := by
  have hq' : q ∈ root :: headFile root :: files ++ sources := .tail _ (.tail _ hq)
  rw [Workspace.file?_place hw hplace, h.absolute hq', h.absolute (by simp [hp])]
  simp [h.ne_empty hq']

end Shelf

/-- Files can be stored for a project: there are only the directories and files that it is to have, and the clock
stands at its start. -/
structure Room (w : Workspace) (root : String) (files sources : List String) : Prop where
  shelf : Shelf root files sources
  rooted : w.Rooted
  now : w.now = 0.0
  only : w.disk.Only (way root) (files ++ sources)

theorem Room.commitOf_eq (h : Room w root files sources) : commitOf w root = .ok none := by
  have hhas : w.has (join (join root ".git") "HEAD") = false := by
    have hnormal : normalize (headFile root) = headFile root := (h.shelf.normal _ (by simp)).2
    have hdir : w.disk.isDir (headFile root) = false :=
      h.only.isDir_eq_false (hnormal.symm ▸ h.shelf.free _ mem_cons_self)
    have hfile : w.disk.file? (headFile root) = none :=
      h.only.file?_eq_none (hnormal.symm ▸ (nodup_cons.mp h.shelf.nodup).1)
    change w.has (headFile root) = false
    rw [Workspace.has, h.shelf.absolute (by simp), Files.Disk.has_eq_false.mpr ⟨hdir, hfile⟩, Bool.and_false]
  unfold commitOf
  simp only [hhas]
  rfl

theorem Room.place (h : Room w root files sources) (hp : p ∈ files) (c : Content) :
    ∃ w', w.place p c = .ok w' ∧ Room w' root files sources := by
  have hmem : p ∈ files ++ sources := mem_append_left _ hp
  have hparent := h.shelf.parent p hp
  have hway : ∀ q ∈ way root, normalize q ∈ way root ∧ normalize q ∉ files ++ sources := by
    intro q hq
    rw [h.shelf.dirs q hq]
    exact ⟨hq, fun hfile => h.shelf.free q (.tail _ hfile) (.tail _ hq)⟩
  obtain ⟨d, hplace, honly⟩ := h.only.place w.now c (h.shelf.normal p (.tail _ (.tail _ hmem))).2 hmem
    (h.shelf.free p (.tail _ hmem)) (by rw [hparent]; exact h.shelf.last) (by rw [hparent]; exact hway)
  refine ⟨{ w with disk := d }, ?_, { h with only := honly }⟩
  rw [Workspace.place, h.shelf.absolute (.tail _ (.tail _ hmem)), hplace]
  rfl

/-- What is known without a working copy. -/
abbrev known (root : String) (rest : Fields) : Value :=
  .obj (("project_root", .text root) :: ("commit_hash", .null) :: rest)

/-- It makes a header. -/
theorem Room.header_eq (h : Room w root files sources) {rest : Fields}
    (hrest : (known root rest).sub "timestamp" = .null) :
    Header.of w formatVersion (known root rest)
      = .ok ⟨formatVersion, 0, root, .text "unknown",
        (known root rest).sub "file_path"⟩ := by
  have hne : root ≠ "" := h.shelf.ne_empty (by simp)
  have hroot : (text root).orElse (.text w.cwd) = .text root := by simp [orElse, truthy, hne]
  have hsub : (known root rest).sub "project_root"
      = .text root := rfl
  have hcommit : ((known root rest).sub "commit_hash").truthy
      = false := rfl
  have hnow : null.orElse (.float w.now) = .float 0.0 := by rw [h.now]; rfl
  have hwhole : (float 0.0).toWhole = .ok 0 := by decide +kernel
  unfold Header.of
  rw [hsub, hroot, hrest]
  simp only [pure, Except.pure, bind, Except.bind, hcommit, Bool.false_eq_true, ↓reduceIte,
    h.shelf.absolute mem_cons_self, h.commitOf_eq, Except.map, hnow, hwhole]
  rfl

/-- The header of the graph of a file. -/
def headerOf (root file : String) : Header := ⟨formatVersion, 0, root, .text "unknown", .text file⟩

theorem render_headerOf (root file : String) : ∃ s, render {} (headerOf root file).value = .ok s := by
  have hvalue : Json.Writable (headerOf root file).value := by
    refine writable_obj (forall_mem_append.mpr ⟨?_, ?_⟩)
    · simp [headerOf, formatVersion, writable_text, writable_int (n := 0) (by decide)]
    · split <;> simp [headerOf, writable_text]
  exact hvalue.render {}

section

variable {g : Graph} {file : String} {given : Option String} (h : Room w root files sources)
  (hroot : rootFor w file given = root) (hin : sourceIn root file = source)
include h hroot hin

/-- A graph is stored up to the first record that cannot be written. -/
theorem Room.save_eq (hcache : graphPath root (w.absolute source) = cache) (hmem : cache ∈ files) :
    ∃ (s : String) (w1 : Workspace), save w g file given = (match (linesSoFar (records g)).2 with
      | some e => (.error e, w1)
      | none => enter w1 root source cache)
    ∧ Room w1 root files sources ∧ w.place cache (textOf (s :: (linesSoFar (records g)).1)) = .ok w1
    ∧ render {} (headerOf root file).value = .ok s := by
  have hof : Header.of w formatVersion (.obj [("project_root", .text root), ("commit_hash", .optText none),
      ("file_path", .text file)]) = .ok (headerOf root file) := h.header_eq rfl
  obtain ⟨s, hs⟩ := render_headerOf root file
  obtain ⟨w1, hplace, hroom⟩ := h.place hmem (textOf (s :: (linesSoFar (records g)).1))
  refine ⟨s, w1, ?_, hroom, hplace, hs⟩
  rw [textOf] at hplace
  unfold save write
  simp only [hroot, h.commitOf_eq, hof, linesSoFar_lines hs, hin, hcache, hplace]
  cases (linesSoFar (records g)).2 <;> rfl

/-- A graph all of whose records can be written is stored, and its source is entered. -/
theorem Room.save_kept (hsource : source ∈ sources) (hcache : graphPath root source = cache) (hmem : cache ∈ files)
    (hrecords : (linesSoFar (records g)).2 = none) {m : Manifest} (hm : m.Writable)
    (hload : Manifest.load w formatVersion root = .ok m) (hhash : fileHash w source = some hash) :
    ∃ (l : List String) (w' : Workspace), save w g file given = (.ok cache, w')
      ∧ Room w' root files sources
      ∧ Manifest.load w' formatVersion root = .ok (m.record w root source cache hash)
      ∧ w'.cwd = w.cwd
      ∧ (∀ q ∈ files ++ sources, q ≠ manifestPath root →
        w'.file? q = if q = cache then some (textOf l) else w.file? q)
      ∧ linesSoFar (lines (headerOf root file) g) = (l, none) := by
  have hne : cache ≠ manifestPath root := hcache ▸ graphPath_ne_manifestPath (h.shelf.normal _ mem_cons_self).1 source
  have habs := h.shelf.absolute (show source ∈ root :: headFile root :: files ++ sources by simp [hsource]) w
  obtain ⟨s, w1, hsave, hroom, hplace, hs⟩ :=
    Room.save_eq (g := g) h hroot hin (habs.symm ▸ hcache) hmem
  have hfile1 := fun q => h.shelf.file?_place (q := q) h.rooted hplace hmem
  have hload1 : Manifest.load w1 formatVersion root = .ok m := by
    rw [Manifest.load_congr (hfile1 _ (mem_append_left _ h.shelf.manifest) |>.trans (if_neg hne.symm)), hload]
  have hhash1 : fileHash w1 source = some hash := by
    rw [← hhash,
      fileHash_congr (hfile1 _ (mem_append_right _ hsource) |>.trans (if_neg (h.shelf.source_ne hmem hsource)))]
  obtain ⟨hcwd, hnow⟩ := Workspace.cwd_place hplace
  have hsame : m.record w1 root source cache hash = m.record w root source cache hash := by
    rw [Manifest.record, Manifest.nameOf, Workspace.absolute_congr hcwd, Workspace.seconds, hnow]
    rfl
  have hzero : w.seconds = 0 := by
    rw [Workspace.seconds, h.now]
    decide +kernel
  have hseconds : Json.Writable (.int w.seconds) := by
    rw [hzero]
    exact writable_int (by decide)
  obtain ⟨t, ht⟩ := ((hm.record hseconds root source cache hash).value hseconds).render (indented 2)
  obtain ⟨w', hplace', hroom'⟩ := hroom.place h.shelf.manifest (.text t)
  have henter : (m.record w root source cache hash).save w1 root = .ok w' := bind_eq_ok.mpr ⟨t, ht, hplace'⟩
  refine ⟨s :: (linesSoFar (records g)).1, w', ?_, hroom', ?_, ?_, ?_, ?_⟩
  · rw [hsave, hrecords]
    unfold enter
    rw [hload1]
    simp [hhash1, hsame, henter]
  · exact Manifest.load_saved ((Manifest.sound_load hload).record w root _ cache _) hroom.rooted henter formatVersion
  · exact (Workspace.cwd_place hplace').1.trans hcwd
  · intro q hq hqm
    rw [h.shelf.file?_place hroom.rooted hplace' h.shelf.manifest hq, if_neg hqm, hfile1 q hq]
  · rw [linesSoFar_lines hs, hrecords]

end

/-- Where there are only sources, there is room and nothing is kept yet. -/
theorem Shelf.room (h : Shelf root files sources) (hw : w.Rooted) (hnow : w.now = 0.0)
    (honly : w.disk.Only (way root) sources) : Room w root files sources
      ∧ Manifest.load w formatVersion root = .ok { version := formatVersion } := by
  have hmem : manifestPath root ∈ root :: headFile root :: files ++ sources := by simp [h.manifest]
  refine ⟨⟨h, hw, hnow, fun e he => ?_⟩, Manifest.load_of_absent ?_ _⟩
  · have := honly e he
    split <;> simp_all
  · rw [Workspace.file?_eq, if_neg (h.ne_empty hmem), h.absolute hmem, honly.file?_eq_none]
    rw [(h.normal _ hmem).2]
    exact fun hsource => h.source_ne h.manifest hsource rfl

/-! ## Small workspaces -/

def keptFiles : List String := [manifestPath "/p", graphPath "/p" "/p/m.py", graphPath "/p" "/p/b.py"]

def projectSources : List String := ["/p/m.py", "/p/b.py"]

theorem shelf_project : Shelf "/p" keptFiles projectSources where
  normal := by
    simp only [keptFiles, projectSources, cons_append, nil_append, forall_mem_cons]
    refine ⟨?_, ?_, ?_, ?_, ?_, ?_⟩ <;> decide +kernel
  nodup := by decide +kernel
  manifest := mem_cons_self
  parent := by
    simp only [keptFiles, forall_mem_cons]
    refine ⟨?_, ?_, ?_, by simp⟩ <;> decide +kernel
  dirs := by decide +kernel
  first := by decide +kernel
  last := by decide +kernel
  free := by decide +kernel

example : way "/p" = ["/p", "/p/.nsss", "/p/.nsss/cache", cacheDir "/p"] := by decide +kernel

/-- One file in a directory, and a current directory. -/
def oneFile (cwd : String) : Workspace :=
  { disk := ⟨[("/p", .dir 0.0), ("/p/m.py", .file (.text "x = 1\n") 0.0)]⟩, cwd }

def oneNode : Graph := { nodes := [{ id := .text "Module:m.py:-1:-1:0", kind := .text "Module" }] }

theorem only_oneFile (cwd : String) : (oneFile cwd).disk.Only (way "/p") projectSources := by
  simp [Files.Disk.Only, oneFile, projectSources, Files.Entry.isDir, shelf_project.first]

theorem room_oneFile {cwd : String} (hw : (oneFile cwd).Rooted) : Room (oneFile cwd) "/p" keptFiles projectSources
    ∧ Manifest.load (oneFile cwd) formatVersion "/p" = .ok { version := formatVersion } :=
  shelf_project.room hw rfl (only_oneFile cwd)

theorem records_oneNode : (linesSoFar (records oneNode)).2 = none := by decide +kernel

end Store

end SecScan
