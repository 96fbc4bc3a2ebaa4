import SecScan.Proofs.Store.Finding

/-!
The graph of a project, read from the graphs of its files. It is read in full as long as all files are fresh, and
given up as soon as one of them holds something else (`loadProject_of_changed`).
-/

namespace SecScan.Store

open List SecScan.Path Manifest Value

open Files (Workspace Content)
open Json (image)

variable {w w' : Workspace} {m : Manifest}
variable {g : Graph} {e : Entry}

/-! ## A file that changes -/

/-- Two workspaces that agree on all files but one. -/
structure Apart (w w' : Workspace) (file : String) : Prop where
  cwd : w'.cwd = w.cwd
  same : ∀ q, w.absolute q ≠ w.absolute file → w'.file? q = w.file? q

variable {root file : String}

/-- What an entry with a file adds, in terms of what the files hold. -/
theorem addEntry_of_file
    (hfile : entryFile root e = .ok (some file)) : addEntry w m root true g e =
      if m.isFresh w root file = false then .ok none else do
        let cache ← e.cachePath
        match (w.file? cache).bind fun c => (readLines formatVersion c).toOption with
        | none => return none
        | some (h, header) =>
          if (header.sub "project_root").truthy && (header.sub "project_root").text? != some root then return some g
          return some (← g.merge h) := by
  unfold addEntry
  simp only [hfile, bind, Except.bind, ↓reduceIte]
  cases m.isFresh w root file with
  | false => rfl
  | true =>
    simp only [Bool.not_true, Bool.false_eq_true, ↓reduceIte]
    cases e.cachePath with
    | error f => rfl
    | ok cache =>
      simp only [← read_toOption]
      cases w.has cache with
      | false => rfl
      | true =>
        simp only [Bool.not_true, Bool.false_eq_true, ↓reduceIte]
        cases read w formatVersion cache <;> rfl

theorem entryFile_ne_empty (hroot : isAbsolute root = true)
    (h : entryFile root e = .ok (some file)) : file ≠ "" := by
  have habs : isAbsolute file = true := by
    unfold entryFile at h
    split at h
    · obtain h := Except.ok.inj h
      split at h
      · obtain rfl := Option.some.inj h
        exact isAbsolute_absolute hroot _
      · next hnot =>
        split at h
        · obtain rfl := Option.some.inj h
          simpa using hnot
        · cases h
    · cases h
  rintro rfl
  exact absurd habs (by decide)

section

variable {w w' : Workspace} {m : Manifest} {root file changed : String} (hapart : Apart w w' changed)
  (hchanged : fileHash w' changed ≠ fileHash w changed)
include hapart

theorem Apart.recorded?_eq : m.recorded? w' root file = m.recorded? w root file := by
  rw [recorded?, recorded?, nameOf, nameOf, Workspace.absolute_congr hapart.cwd]

theorem Apart.isFresh_eq (h : w.absolute file ≠ w.absolute changed) :
    m.isFresh w' root file = m.isFresh w root file := by
  rw [isFresh, isFresh, fileHash_congr (hapart.same file h), hapart.recorded?_eq]

include hchanged in
/-- A file that was fresh is stale once it holds something else. -/
theorem Apart.isFresh_eq_false (hfile : file ≠ "") (h : w.absolute file = w.absolute changed)
    (hfresh : m.isFresh w root file = true) : m.isFresh w' root file = false := by
  have hne : changed ≠ "" := by
    rintro rfl
    exact hchanged (fileHash_congr (by rw [Workspace.file?_eq, Workspace.file?_eq, if_pos rfl, if_pos rfl]))
  have habs := Workspace.absolute_congr hapart.cwd
  obtain ⟨c, e, hc, he, hhash⟩ := isFresh_iff.mp hfresh
  rw [Bool.eq_false_iff]
  intro hfresh'
  obtain ⟨c', e', hc', he', hhash'⟩ := isFresh_iff.mp hfresh'
  rw [hapart.recorded?_eq, he] at he'
  obtain rfl := Option.some.inj he'
  rw [Workspace.file?_congr hfile hne h] at hc
  rw [Workspace.file?_congr hfile hne (by rw [habs, habs, h])] at hc'
  refine hchanged ?_
  change (w'.file? changed).map _ = (w.file? changed).map _
  rw [hc, hc', Option.map_some, Option.map_some, ← text.inj (hhash.symm.trans hhash')]

/-- An entry of another file, whose graph is kept elsewhere, adds what it added. -/
theorem Apart.addEntry_eq
    (hother : ¬ ∃ file, entryFile root e = .ok (some file) ∧ w.absolute file = w.absolute changed)
    (hcaches : ∀ cache, e.cache = .text cache → w.absolute cache ≠ w.absolute changed) :
    addEntry w' m root true g e = addEntry w m root true g e := by
  match hfile : entryFile root e with
  | .error _ | .ok none => simp [addEntry, hfile, bind, Except.bind]
  | .ok (some file) =>
    rw [addEntry_of_file hfile, addEntry_of_file hfile, hapart.isFresh_eq fun hsame => hother ⟨file, hfile, hsame⟩]
    cases hcache : e.cache with
    | text cache =>
      simp [Entry.cachePath_eq_ok.mpr hcache, bind, Except.bind, hapart.same cache (hcaches cache hcache)]
    | _ =>
      have hpath : e.cachePath = .error .wrongKind := by rw [Entry.cachePath, hcache]
      simp [hpath, bind, Except.bind]

include hchanged in
/-- An entry of the file that changed ends the reading. -/
theorem Apart.addEntry_eq_none (hroot : isAbsolute root = true) {g1 : Graph}
    (hfile : entryFile root e = .ok (some file)) (hsame : w.absolute file = w.absolute changed)
    (hread : addEntry w m root true g e = .ok (some g1)) : addEntry w' m root true g e = .ok none := by
  rw [addEntry_of_file hfile] at hread ⊢
  cases hfresh : m.isFresh w root file with
  | false =>
    rw [hfresh, if_pos rfl] at hread
    cases hread
  | true => rw [if_pos (hapart.isFresh_eq_false hchanged (entryFile_ne_empty hroot hfile) hsame hfresh)]

include hchanged in
/-- A project that was read in full is given up at the file that changed. -/
theorem Apart.addEntries_eq_none (hroot : isAbsolute root = true) {es : List Entry} {g' : Graph}
    (hread : addEntries w m root true g es = .ok (some g'))
    (hcaches : ∀ e ∈ es, ∀ cache, e.cache = .text cache → w.absolute cache ≠ w.absolute changed)
    (hentered : ∃ e ∈ es, ∃ file, entryFile root e = .ok (some file) ∧ w.absolute file = w.absolute changed) :
    addEntries w' m root true g es = .ok none := by
  induction es generalizing g with
  | nil =>
    obtain ⟨e, he, -⟩ := hentered
    cases he
  | cons e es ih =>
    rw [addEntries] at hread ⊢
    obtain ⟨r, hr, hread⟩ := bind_eq_ok.mp hread
    cases r with
    | none => cases hread
    | some g1 =>
      by_cases hhere : ∃ file, entryFile root e = .ok (some file) ∧ w.absolute file = w.absolute changed
      · obtain ⟨file, hfile, hsame⟩ := hhere
        rw [hapart.addEntry_eq_none hchanged hroot hfile hsame hr]
        rfl
      · -- the entry adds what it added, and the file is entered behind it
        rw [hapart.addEntry_eq hhere (hcaches e mem_cons_self), hr]
        exact ih hread (fun e he => hcaches e (.tail _ he)) (((exists_mem_cons_iff ..).mp hentered).resolve_left hhere)

end

theorem apart_put (hw : w.Rooted) (file : String) (c : Content) (t : Float) :
    Apart w { w with disk := w.disk.put (w.absolute file) (.file c t) } file := by
  refine ⟨rfl, fun q hq => ?_⟩
  have hfile := w.disk.file?_put (w.absolute file) (w.absolute q) c t
  rw [hw.normalize_absolute, hw.normalize_absolute, if_neg hq] at hfile
  rw [Workspace.file?_eq, Workspace.file?_eq, ← hfile]
  rfl

theorem file?_put (w : Workspace) (hne : file ≠ "") (c : Content) (t : Float) :
    ({ w with disk := w.disk.put (w.absolute file) (.file c t) } : Workspace).file? file = some c := by
  rw [Workspace.file?_eq, if_neg hne]
  exact (w.disk.file?_put ..).trans (if_pos rfl)

/-- The file is entered in a manifest, and no graph is kept in it. -/
structure Manifest.Enters (m : Manifest) (w : Workspace) (root file : String) : Prop where
  entered : ∃ e ∈ m.entries.map (·.2), ∃ f, entryFile root e = .ok (some f) ∧ w.absolute f = w.absolute file
  caches : ∀ e ∈ m.entries.map (·.2), ∀ cache, e.cache = .text cache → w.absolute cache ≠ w.absolute file
  apart : w.absolute file ≠ w.absolute (manifestPath root)

/-- A change to one file is enough for the graph of the project not to be found. -/
theorem loadProject_of_changed {x : Graph × Value} (hw : w.Rooted)
    (hread : loadProject w (some root) = .ok (some x)) (hm : load w formatVersion (projectRoot w (some root)) = .ok m)
    (henters : m.Enters w (projectRoot w (some root)) file) (hapart : Apart w w' file)
    (hchanged : fileHash w' file ≠ fileHash w file) : loadProject w' (some root) = .ok none := by
  have hm' : load w' formatVersion (projectRoot w (some root)) = .ok m := by
    rw [load_congr (hapart.same _ henters.apart.symm), hm]
  unfold loadProject at hread ⊢
  simp only [projectRoot_congr hapart.cwd, hm, hm', bind, Except.bind] at hread ⊢
  cases hentries : addEntries w m (projectRoot w (some root)) true {} (m.entries.map (·.2)) with
  | error f =>
    rw [hentries] at hread
    cases hread
  | ok r =>
    cases r with
    | none =>
      rw [hentries] at hread
      cases hread
    | some g =>
      have hroot : isAbsolute (projectRoot w (some root)) = true := isAbsolute_absolute hw _
      rw [hapart.addEntries_eq_none hchanged hroot hentries henters.caches henters.entered]
      rfl

/-! ## A small project -/

/-- The graph of a file that is as it was is read. -/
theorem addEntry_of_kept {root file cache : String} {g h : Graph} {e : Entry} {c : Content} {header : Value}
    (hfile : entryFile root e = .ok (some file)) (hfind : m.recorded? w root file = some e)
    (hhash : (fileHash w file).map text = some e.hash) (hcache : e.cache = .text cache) (hkept : w.file? cache = some c)
    (hread : readLines formatVersion c = .ok (h, header)) (hheader : header.sub "project_root" = .text root) :
    addEntry w m root true g e = (g.merge h).map some := by
  obtain ⟨hash, hhash, heq⟩ := Option.map_eq_some_iff.mp hhash
  have hfresh : m.isFresh w root file = true := by simp [isFresh, hhash, hfind, ← heq, text?]
  rw [addEntry_of_file hfile, hfresh, if_neg (by decide)]
  simp only [Entry.cachePath_eq_ok.mpr hcache, bind, Except.bind, hkept, Option.bind_some, hread, Except.toOption,
    hheader, text?, bne_self_eq_false, Bool.and_false, Bool.false_eq_true, ↓reduceIte]
  cases g.merge h <;> rfl

theorem loadProject_eq {given : Option String} {header : Header}
    (hroot : projectRoot w given = root) (hload : load w formatVersion root = .ok m)
    (hentries : addEntries w m root true {} (m.entries.map (·.2)) = .ok (some g)) (hempty : g.isEmpty = false)
    (hcommit : commitOf w root = .ok none)
    (hheader : Header.of w formatVersion (.obj [("project_root", .text root), ("commit_hash", .null)]) = .ok header) :
    loadProject w given = .ok (some (g, header.value)) := by
  unfold loadProject
  simp only [hroot, hload, bind, Except.bind, hentries, hempty, hcommit, optText, ofOption, hheader,
    Bool.false_eq_true, ↓reduceIte]
  rfl

/-- Two files of a project. -/
def twoFiles : Workspace :=
  { disk := ⟨[("/p", .dir 0.0), ("/p/m.py", .file (.text "import b\n") 0.0), ("/p/b.py", .file (.text "x = 1\n") 0.0)]⟩
    cwd := "/p" }

/-- The graph of a file that imports a module. -/
def importingGraph : Graph :=
  { nodes := [{ id := .text "Import:m.py:1:0:1", kind := .text "Import"
                place := .known (.text "m.py") ⟨"m.py", 1, 0, 1, 8⟩
                attrs := .obj [("names", .texts ["b"]), ("asnames", .list [.null])] }] }

/-- The graph of the module. -/
def importedGraph : Graph := { nodes := [{ id := .text "Module:b.py:-1:-1:0", kind := .text "Module" }] }

def bothGraphs : Graph := { nodes := importingGraph.stored.nodes ++ importedGraph.stored.nodes }

/-- Their graphs are stored, and nothing has changed since. -/
theorem twoFiles_stored : ∃ (w : Workspace) (m : Manifest) (header : Value), w.cwd = "/p"
    ∧ w.file? "/p/b.py" = some (.text "x = 1\n") ∧ load w formatVersion "/p" = .ok m ∧ m.Enters w "/p" "/p/b.py"
    ∧ loadProject w (some "/p") = .ok (some (bothGraphs, header)) := by
  have hrooted : twoFiles.Rooted := by unfold Workspace.Rooted; decide
  have honly : twoFiles.disk.Only (way "/p") projectSources := by
    simp [Files.Disk.Only, twoFiles, projectSources, Files.Entry.isDir, shelf_project.first]
  obtain ⟨hroom, hempty⟩ := shelf_project.room hrooted rfl honly
  have hm : "/p/m.py" ∈ projectSources := by decide
  have hb : "/p/b.py" ∈ projectSources := by decide
  have habs : ∀ p ∈ projectSources, ∀ w : Workspace, w.absolute p = p := fun p hp =>
    shelf_project.absolute (mem_append_right _ hp)
  have hname : ∀ p ∈ projectSources, ∀ w, nameOf w "/p" p = relative "/p" p := by
    intro p hp w
    rw [nameOf, habs p hp]
  have hout : ∀ p ∈ projectSources, ∀ q ∈ keptFiles, p ≠ q := fun p hp q hq => shelf_project.source_ne hq hp
  have hne := graphPath_ne_manifestPath (show isAbsolute "/p" = true by decide)
  have hne₁ := hne "/p/m.py"
  have hne₂ := hne "/p/b.py"
  have hk₁ : graphPath "/p" "/p/m.py" ∈ keptFiles := by simp [keptFiles]
  have hk₂ : graphPath "/p" "/p/b.py" ∈ keptFiles := by simp [keptFiles]
  have hdiffer : graphPath "/p" "/p/m.py" ≠ graphPath "/p" "/p/b.py" := by
    have hnodup := shelf_project.nodup
    simp only [keptFiles, cons_append, nodup_cons, mem_cons, not_or] at hnodup
    exact hnodup.2.2.1.1
  generalize hcache₁ : graphPath "/p" "/p/m.py" = cache₁ at hk₁ hne₁ hdiffer
  generalize hcache₂ : graphPath "/p" "/p/b.py" = cache₂ at hk₂ hne₂ hdiffer
  obtain ⟨x, hx⟩ : ∃ x, fileHash twoFiles "/p/m.py" = some x := ⟨_, rfl⟩
  obtain ⟨y, hy⟩ : ∃ y, fileHash twoFiles "/p/b.py" = some y := ⟨_, rfl⟩
  obtain ⟨l₁, w₁, -, hroom₁, hload₁, hcwd₁, hfile₁, hlines₁⟩ :=
    @Room.save_kept _ _ _ _ _ _ _ importingGraph "m.py" none hroom (by decide) (show _ = "/p/m.py" by decide) hm hcache₁
      hk₁ (by decide) _ .empty hempty hx
  have hfiles₁ : ∀ p ∈ projectSources, w₁.file? p = twoFiles.file? p := fun p hp =>
    (hfile₁ p (mem_append_right _ hp) (hout p hp _ shelf_project.manifest)).trans (if_neg (hout p hp _ hk₁))
  have hseconds : Json.Writable (.int twoFiles.seconds) := by
    rw [show twoFiles.seconds = 0 by decide +kernel]
    exact Json.writable_int (by decide)
  obtain ⟨l₂, w, -, hroom, hload, hcwd, hfile, hlines₂⟩ :=
    @Room.save_kept _ _ _ _ _ _ _ importedGraph "b.py" none hroom₁ (by rw [rootFor, if_neg (by decide), hcwd₁]; rfl)
      (show _ = "/p/b.py" by decide) hb hcache₂ hk₂ (by decide) _ (Writable.empty.record hseconds ..) hload₁
      ((fileHash_congr (hfiles₁ _ hb)).trans hy)
  have hfiles : ∀ p ∈ projectSources, w.file? p = twoFiles.file? p := fun p hp =>
    (hfile p (mem_append_right _ hp) (hout p hp _ shelf_project.manifest)).trans
      ((if_neg (hout p hp _ hk₂)).trans (hfiles₁ p hp))
  have hkept₁ : w.file? cache₁ = some (textOf l₁) := by
    rw [hfile _ (mem_append_left _ hk₁) hne₁, if_neg hdiffer, hfile₁ _ (mem_append_left _ hk₁) hne₁, if_pos rfl]
  have hkept₂ : w.file? cache₂ = some (textOf l₂) := (hfile _ (mem_append_left _ hk₂) hne₂).trans (if_pos rfl)
  let e₁ : Entry := ⟨.text "m.py", .text x, .text cache₁, .int twoFiles.seconds⟩
  let e₂ : Entry := ⟨.text "b.py", .text y, .text cache₂, .int w₁.seconds⟩
  let m : Manifest := { version := formatVersion, time := w₁.seconds, entries := [("m.py", e₁), ("b.py", e₂)] }
  have hread : load w formatVersion "/p" = .ok m := by
    rw [hload, record, record, hname _ hm, hname _ hb]
    rfl
  have hadd₁ := @addEntry_of_kept w m "/p" "/p/m.py" cache₁ {} _ e₁ _ _ rfl (by rw [recorded?, hname _ hm]; rfl)
    (by rw [fileHash_congr (hfiles _ hm), hx]; rfl) rfl hkept₁
    (readLines_lines hlines₁ rfl (by decide) (by decide)) (by rfl)
  have hadd₂ := @addEntry_of_kept w m "/p" "/p/b.py" cache₂ importingGraph.stored _ e₂ _ _ rfl
    (by rw [recorded?, hname _ hb]; rfl) (by rw [fileHash_congr (hfiles _ hb), hy]; rfl) rfl hkept₂
    (readLines_lines hlines₂ rfl (by decide) (by decide)) (by rfl)
  have hentries : addEntries w m "/p" true {} [e₁, e₂] = .ok (some bothGraphs) := by
    have hfirst : ({} : Graph).merge importingGraph.stored = .ok importingGraph.stored := by rfl
    have hsecond : importingGraph.stored.merge importedGraph.stored = .ok bothGraphs := by cbv
    simp only [addEntries, hadd₁, hfirst, Except.map, bind, Except.bind, hadd₂, hsecond]
  have hheader := @Room.header_eq _ _ _ _ hroom [] rfl
  refine ⟨w, m, _, hcwd.trans hcwd₁, hfiles _ hb, hread, ⟨⟨e₂, by simp [m], "/p/b.py", rfl, rfl⟩, ?_, ?_⟩,
    loadProject_eq (shelf_project.absolute mem_cons_self w) hread hentries rfl hroom.commitOf_eq hheader⟩
  · intro e he c hc
    have hk : c ∈ keptFiles := by
      rcases mem_cons.mp he with rfl | he
      · exact text.inj hc ▸ hk₁
      · obtain rfl := mem_singleton.mp he
        exact text.inj hc ▸ hk₂
    rw [habs _ hb, shelf_project.absolute (by simp [hk])]
    exact (hout _ hb _ hk).symm
  · rw [habs _ hb, shelf_project.absolute (by simp [shelf_project.manifest])]
    exact hout _ hb _ shelf_project.manifest

/-- The module was edited since. -/
theorem twoFiles_edited : ∃ (w w' : Workspace) (m : Manifest) (header : Value), w.Rooted
    ∧ load w formatVersion (projectRoot w (some "/p")) = .ok m
    ∧ m.Enters w (projectRoot w (some "/p")) "/p/b.py" ∧ loadProject w (some "/p") = .ok (some (bothGraphs, header))
    ∧ Apart w w' "/p/b.py" ∧ fileHash w' "/p/b.py" ≠ fileHash w "/p/b.py"
    ∧ w'.file? "/p/b.py" = some (.text "x = 2\n") := by
  obtain ⟨w, m, header, hcwd, hb, hm, henters, hproject⟩ := twoFiles_stored
  have hrooted : w.Rooted := by
    rw [Workspace.Rooted, hcwd]
    decide
  have habs : projectRoot w (some "/p") = "/p" := shelf_project.absolute mem_cons_self w
  let w' : Workspace := { w with disk := w.disk.put (w.absolute "/p/b.py") (.file (.text "x = 2\n") 0.0) }
  have hb' : w'.file? "/p/b.py" = some (.text "x = 2\n") := file?_put w (by decide) _ _
  refine ⟨w, w', m, header, hrooted, habs.symm ▸ hm, habs.symm ▸ henters, hproject, apart_put hrooted _ _ _, ?_, hb'⟩
  change (w'.file? "/p/b.py").map _ ≠ (w.file? "/p/b.py").map _
  rw [hb, hb']
  decide +kernel

end SecScan.Store
