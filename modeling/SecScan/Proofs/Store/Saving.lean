import SecScan.Proofs.Store.Manifests

/-!
What storing a graph does (`saves_save`): it writes the file that the graph is kept in, as far as it can
be written, and after that the manifest. Both lie in a directory of the project's own, apart from each
other, and nothing else is changed (`Saves.file?_eq`).
-/

namespace SecScan.Store

open SecScan.Path Manifest Digest List

open Json (image depth levelLimit)
open Files (Workspace Content)

variable {x root file q : String} {m : Manifest}
variable {w w' : Workspace} {h : Header} {g : Graph} {cache source : String} {r : Try String}

/-! ## Where things are kept -/

theorem digest_char {b : List UInt8} {c : Char} (h : c ∈ (sha256Bytes b).toList) :
    c ∈ "0123456789abcdef".toList := by
  simp only [sha256Bytes, String.toList_ofList, mem_flatMap, hexWord, mem_map] at h
  obtain ⟨x, -, i, -, rfl⟩ := h
  exact Json.hexChar_mem _

theorem digest_ne_empty (b : List UInt8) : sha256Bytes b ≠ "" := by
  intro h
  have := congrArg (fun s => s.toList.length) h
  simp [sha256Bytes, hexWord] at this

theorem isName_digest (s : String) : Path.IsName (sha256 s) := by
  have hdot : '.' ∉ (sha256 s).toList := fun h => absurd (digest_char h) (by decide)
  refine ⟨digest_ne_empty _, ?_, ?_, fun h => absurd (digest_char h) (by decide)⟩
  · intro h
    exact hdot (by rw [h]; decide)
  · intro h
    exact hdot (by rw [h]; decide)

def graphName (name : String) : String := "graph_file_" ++ sha256 name ++ ".jsonl"

theorem graphName_ne {s : String} (hs : s.toList.head? ≠ some 'g') (name : String) : graphName name ≠ s := by
  rintro rfl
  rw [graphName, String.append_assoc, String.toList_append] at hs
  exact hs rfl

theorem isName_graphName (name : String) : Path.IsName (graphName name) := by
  refine ⟨graphName_ne (by decide) _, graphName_ne (by decide) _, graphName_ne (by decide) _, fun h => ?_⟩
  simp only [graphName, String.toList_append, mem_append] at h
  rcases h with (h | h) | h
  · exact absurd h (by decide)
  · exact absurd (digest_char h) (by decide)
  · exact absurd h (by decide)

theorem isName_manifest : Path.IsName "manifest.json" := ⟨by decide, by decide, by decide, by decide⟩

/-- The names of the directories that graphs are kept in. -/
theorem isName_cacheDir (root : String) : ∀ s ∈ [".nsss", "cache", projectHash root], Path.IsName s := by
  intro s hs
  simp only [mem_cons, not_mem_nil, or_false] at hs
  rcases hs with rfl | rfl | rfl
  · exact ⟨by decide, by decide, by decide, by decide⟩
  · exact ⟨by decide, by decide, by decide, by decide⟩
  · exact isName_digest _

section Places

variable {root : String} (hroot : isAbsolute root = true)
include hroot

theorem parts_cacheDir : isAbsolute (cacheDir root) = true
    ∧ parts (cacheDir root) = parts root ++ [".nsss", "cache", projectHash root] :=
  parts_joinAll hroot (isName_cacheDir root)

theorem isAbsolute_manifestPath : isAbsolute (manifestPath root) = true := isAbsolute_join (parts_cacheDir hroot).1 _

theorem parts_manifestPath : parts (manifestPath root) = parts (cacheDir root) ++ ["manifest.json"] :=
  parts_join_name (parts_cacheDir hroot).1 isName_manifest

theorem parts_absolute_cached (w : Workspace) (hx : Path.IsName x) :
    parts (w.absolute (join (cacheDir root) x)) = parts (cacheDir root) ++ [x] := by
  have habs := (parts_cacheDir hroot).1
  rw [Workspace.absolute, absolute_of_isAbsolute (isAbsolute_join habs x),
    parts_normalize (isAbsolute_join habs x), parts_join_name habs hx]

/-- A file outside of the directory is none that is kept there. -/
theorem outside_ne_cached {p : String} (h : ¬ parts (cacheDir root) <+: parts (w.absolute p)) (hx : Path.IsName x) :
    w.absolute p ≠ w.absolute (join (cacheDir root) x) := by
  intro heq
  apply h
  rw [heq, parts_absolute_cached hroot w hx]
  exact prefix_append _ _

/-- What is kept under different names is in different files. -/
theorem cached_inj {y : String} (hx : Path.IsName x) (hy : Path.IsName y)
    (h : w.absolute (join (cacheDir root) x) = w.absolute (join (cacheDir root) y)) : x = y := by
  have hparts := congrArg parts h
  rw [parts_absolute_cached hroot w hx, parts_absolute_cached hroot w hy, append_cancel_left_eq, cons.injEq] at hparts
  exact hparts.1

theorem cached_apart (name : String) :
    w.absolute (join (cacheDir root) (graphName name)) ≠ w.absolute (manifestPath root) := fun h =>
  graphName_ne (by decide) name (cached_inj hroot (isName_graphName name) isName_manifest h)

theorem graphPath_apart (file : String) : w.absolute (graphPath root file) ≠ w.absolute (manifestPath root) :=
  cached_apart hroot _

end Places

theorem Manifest.load_placed (hw : w.Rooted) (hroot : isAbsolute root = true) {c : Content}
    (h : w.place (graphPath root file) c = .ok w') (version : Value) :
    load w' version root = load w version root := by
  apply load_congr
  rw [Workspace.file?_place hw h, if_neg fun hand => graphPath_apart hroot file hand.2.symm]

/-! ## Storing a graph -/

theorem Header.depth_value_le (hversion : depth h.version = 0) (hcommit : depth h.commit = 0)
    (hfile : depth h.file = 0) : depth h.value ≤ levelLimit := by
  have hone : depth h.value ≤ 1 := by
    unfold value
    split <;> simp [Value.obj, depth, Json.depthFields, hversion, hcommit, hfile]
  exact hone.trans (by decide)

theorem header_of {commit : Option String} (hof : Header.of w formatVersion
      (.obj [("project_root", .text root), ("commit_hash", .optText commit), ("file_path", .text file)]) = .ok h) :
    h.version = formatVersion ∧ depth h.value ≤ levelLimit := by
  have hopt : ∀ s, depth (.optText s) = 0 := by
    intro s
    cases s <;> rfl
  obtain ⟨hversion, hfile, hcommit⟩ := Header.eq_of_ok hof
  have hcommitDepth : depth h.commit = 0 := by
    rcases hcommit with hcommit | ⟨c, hcommit⟩
    · rw [hcommit]
      exact hopt commit
    · rw [hcommit]
      unfold Value.orElse
      split
      · exact hopt c
      · rfl
  exact ⟨hversion, Header.depth_value_le (by rw [hversion]; rfl) hcommitDepth (by rw [hfile]; rfl)⟩

/-- The text of a graph up to the first line that cannot be written, if there is one. -/
def Graph.Printed (g : Graph) (fault : Option Fault) (k : Content) : Prop := ∃ h l, k = textOf l
  ∧ linesSoFar (lines h g) = (l, fault) ∧ h.version = formatVersion ∧ depth h.value ≤ levelLimit

/-- All that storing a graph can do to a workspace. -/
inductive Saves (w : Workspace) (g : Graph) (root source cache : String) : Try String × Workspace → Prop where
  /-- Nothing is written. -/
  | unwritten (e : Fault) : Saves w g root source cache (.error e, w)
  /-- The file is written up to the first line that cannot be, or the manifest cannot be written. -/
  | failed {k : Content} {fault : Option Fault} {w1 : Workspace} (e : Fault) (hk : g.Printed fault k)
      (hplace : w.place cache k = .ok w1) : Saves w g root source cache (.error e, w1)
  /-- The file is written, but there is no source to enter. -/
  | absent {k : Content} {w1 : Workspace} (hk : g.Printed none k) (hplace : w.place cache k = .ok w1)
      (hsource : w1.file? source = none) : Saves w g root source cache (.ok cache, w1)
  /-- The file is written and the source is entered with what it holds. -/
  | entered {k c : Content} {w1 w2 : Workspace} {m : Manifest} (hk : g.Printed none k)
      (hplace : w.place cache k = .ok w1) (hload : load w1 formatVersion root = .ok m)
      (hsource : w1.file? source = some c)
      (hsave : (m.record w1 root source cache (sha256Bytes c.toBytes)).save w1 root = .ok w2) :
      Saves w g root source cache (.ok cache, w2)

theorem saves_enter {k : Content} {w1 : Workspace} (hk : g.Printed none k) (hplace : w.place cache k = .ok w1) :
    Saves w g root source cache (enter w1 root source cache) := by
  unfold enter
  split
  · exact .failed _ hk hplace
  · next m hload =>
    have hhash : fileHash w1 source = (w1.file? source).map fun c => sha256Bytes c.toBytes := rfl
    cases hsource : w1.file? source with
    | none =>
      rw [hhash, hsource]
      exact .absent hk hplace hsource
    | some c =>
      rw [hhash, hsource]
      simp only [Option.map_some]
      split
      · next w2 hsave => exact .entered hk hplace hload hsource hsave
      · exact .failed _ hk hplace

theorem saves_save (w : Workspace) (g : Graph) (file : String) (root : Option String) :
    Saves w g (rootFor w file root) (sourceIn (rootFor w file root) file)
      (graphPath (rootFor w file root) (w.absolute (sourceIn (rootFor w file root) file))) (save w g file root) := by
  unfold save
  simp only []
  generalize rootFor w file root = r
  generalize sourceIn r file = source
  generalize graphPath r (w.absolute source) = cache
  split
  · exact .unwritten _
  · unfold write
    split
    · next e w' hwrite =>
      split at hwrite
      · cases hwrite
        exact .unwritten _
      · next h hof =>
        simp only [] at hwrite
        split at hwrite
        · cases hwrite
          exact .unwritten _
        · next w1 hplace =>
          split at hwrite
          · cases hwrite
            exact .failed _ ⟨_, _, rfl, rfl, header_of hof⟩ hplace
          · cases hwrite
    · next w' hwrite =>
      split at hwrite
      · cases hwrite
      · next h hof =>
        simp only [] at hwrite
        split at hwrite
        · cases hwrite
        · next w1 hplace =>
          split at hwrite
          · cases hwrite
          · next hfault =>
            cases hwrite
            exact saves_enter ⟨_, _, rfl, Prod.ext rfl hfault, header_of hof⟩ hplace

theorem Manifest.file?_save (hw : w.Rooted)
    (h : m.save w root = .ok w') (hq : w.absolute q ≠ w.absolute (manifestPath root)) :
    w'.file? q = w.file? q := by
  obtain ⟨s, -, hplace⟩ := bind_eq_ok.mp h
  rw [Workspace.file?_place hw hplace, if_neg fun hand => hq hand.2]

theorem Manifest.cwd_save (h : m.save w root = .ok w') : w'.cwd = w.cwd := by
  obtain ⟨s, -, hplace⟩ := bind_eq_ok.mp h
  exact (Workspace.cwd_place hplace).1

theorem Saves.cwd_eq (h : Saves w g root source cache (r, w')) : w'.cwd = w.cwd := by
  cases h with
  | unwritten => rfl
  | failed e hk hplace | absent hk hplace => exact (Workspace.cwd_place hplace).1
  | entered hk hplace hload hsource hsave =>
    exact (cwd_save hsave).trans (Workspace.cwd_place hplace).1

/-- Storing a graph changes no file but the one it is kept in and the manifest. -/
theorem Saves.file?_eq
    (h : Saves w g root source cache (r, w')) (hw : w.Rooted) (hcache : w.absolute q ≠ w.absolute cache)
    (hmanifest : w.absolute q ≠ w.absolute (manifestPath root)) : w'.file? q = w.file? q := by
  have hplaced : ∀ {c w1}, w.place cache c = .ok w1 → w1.file? q = w.file? q := by
    intro c w1 hplace
    rw [Workspace.file?_place hw hplace, if_neg fun hand => hcache hand.2]
  cases h with
  | unwritten => rfl
  | failed e hk hplace => exact hplaced hplace
  | absent hk hplace => exact hplaced hplace
  | entered hk hplace hload hsource hsave =>
    obtain ⟨hcwd, -⟩ := Workspace.cwd_place hplace
    have habs := Workspace.absolute_congr hcwd
    rw [file?_save (hw.congr hcwd) hsave (by rw [habs, habs]; exact hmanifest), hplaced hplace]

end SecScan.Store
