import SecScan.Proofs.Ir.References
import SecScan.Proofs.Store.Projects
import SecScan.Scan.Impact

/-!
The files that a change concerns. The import map of the graph of a module has a pair for each imported name that is
itself the name of a module (`imports_of_parse`). The files found by it are those from which a chain of imports leads
to a changed file (`mem_spread_iff`). The map is that of the stored graph of the project, which is not read once a file
has changed: then the changed files are all that is found (`impacted_after_change`). By a graph that is read they are
the least set with the changed files that is closed under its imports (`impacted_least`).
-/

namespace SecScan.Scan

open Value Store Ir
open Files (Workspace)
open List
open Syntax (Imports)
open Store (twoFiles)
open Relation (ReflTransGen)

variable {l : List (String × String)} {files : List String} {a : String} {n : Ir.Node String}

/-! ## The import map of a module -/

theorem importRow_eq_some {names : List String} {file : String} (h : n.importRow = some (importRow file names)) :
    n.kind = "Import" ∧ n.span.file = file ∧ n.attrsValue.eachAt "names" = .ok (names.map .text) := by
  unfold Ir.Node.importRow at h
  split at h
  · obtain ⟨hkind, hfile, hnames⟩ := Ir.ImportRow.mk.inj (Option.some.inj h)
    refine ⟨hkind, hfile, ?_⟩
    split at hnames
    · next v hv =>
      obtain rfl := Option.some.inj hnames
      have hget : n.attrsValue.get? "names" = some (.texts names) := by
        rw [Ir.Node.attrsValue, get?_obj, lookup_map Ir.Attr.value, show n.attrs.lookup "names" = _ from hv]
        rfl
      change each (n.attrsValue.getD "names" (.list [])) = _
      rw [Value.getD, hget]
      rfl
    · cases hnames
  · cases h

theorem importRow_inj {file : String} {names names' : List String}
    (h : importRow file names = importRow file names') : names = names' := by
  have hlist := list.inj (Option.some.inj (Ir.ImportRow.mk.inj h).2.2)
  exact map_injective_iff.mpr (fun _ _ => text.inj) hlist

theorem importedModules_of_no_row (h : n.importRow = none) : importedModules (.ofIr n) = .ok [] := by
  unfold Ir.Node.importRow at h
  split at h
  · cases h
  · next hkind =>
    rw [not_or] at hkind
    unfold importedModules
    split
    · next heq => exact absurd (text.inj heq) hkind.1
    · next heq => exact absurd (text.inj heq) hkind.2
    · rfl

variable (w : Workspace)

theorem mapM_moduleFile? (root file : String) (names : List String) :
    (names.map text).mapM (fun m => do
      return (moduleFile? w root (← m.asText "replace")).map (Path.absolute root file, ·)) =
      Except.ok (names.map fun x => (moduleFile? w root x).map (Path.absolute root file, ·)) := by
  induction names with
  | nil => rfl
  | cons x names ih =>
    rw [map_cons, mapM_cons, ih]
    rfl

/-- The pairs of one node. -/
theorem importsOf_ofIr (root : String)
    (h : ∀ x, n.importRow = some x → ∃ names, x = importRow n.span.file names) :
    ∃ l, importsOf w root (.ofIr n) = .ok l ∧ ∀ p, p ∈ l ↔ n.span.file ≠ "" ∧ p.1 = Path.absolute root n.span.file
      ∧ ∃ names, n.importRow = some (importRow n.span.file names) ∧ ∃ x ∈ names, moduleFile? w root x = some p.2 := by
  by_cases hfile : n.span.file = ""
  · refine ⟨[], ?_, by simp [hfile]⟩
    have hplace : (Store.Node.ofIr n).place.file? = .ok none := by
      simp [Store.Node.ofIr, Store.Place.file?, truthy, hfile]
    rw [importsOf, hplace]
    rfl
  · have hplace : (Store.Node.ofIr n).place.file? = .ok (some (.text n.span.file)) := by
      simp [Store.Node.ofIr, Store.Place.file?, truthy, hfile]
    rw [importsOf, hplace]
    simp only [bind, Except.bind]
    cases hrow : n.importRow with
    | none =>
      rw [importedModules_of_no_row hrow]
      exact ⟨[], rfl, by simp⟩
    | some x =>
      obtain ⟨names, rfl⟩ := h x hrow
      obtain ⟨hkind, -, heach⟩ := importRow_eq_some hrow
      have hmodules : importedModules (.ofIr n) = .ok (names.map .text) := by
        simp only [importedModules, Store.Node.ofIr, hkind, heach]
      have hmap := mapM_moduleFile? w root n.span.file names
      simp only [bind, Except.bind] at hmap
      rw [hmodules]
      simp only [hmap]
      refine ⟨_, rfl, ?_⟩
      rintro ⟨a, b⟩
      constructor
      · intro hp
        obtain ⟨x, hx, heq⟩ := mem_filterMap.mp hp
        obtain ⟨y, hy, rfl⟩ := mem_map.mp hx
        obtain ⟨b', hb, heq⟩ := Option.map_eq_some_iff.mp heq
        cases heq
        exact ⟨hfile, rfl, names, rfl, y, hy, hb⟩
      · rintro ⟨-, rfl, names', hnames, y, hy, hb⟩
        obtain rfl := importRow_inj (Option.some.inj hnames)
        exact mem_filterMap.mpr ⟨_, mem_map.mpr ⟨y, hy, rfl⟩, by rw [hb]; rfl⟩

/-- The import map of the graph of a module: a file imports another exactly if some import in the module, of either
form, has a name that the other file is the module of. The module that a name is imported from is not asked for. -/
theorem imports_of_parse {s : Ir.Settings} {yaml : String → Embedded.YamlResult} {file : String} {m : Syntax.Module}
    {g : Ir.Graph String} (h : parse s yaml file m = .ok g) (w : Workspace) (root : String) :
    ∃ l, imports w root (.ofIr g) = .ok l ∧ ∀ a b, (a, b) ∈ l ↔ file ≠ "" ∧ a = Path.absolute root file
      ∧ ∃ names, Imports names m.body ∧ ∃ x ∈ names, moduleFile? w root x = some b := by
  have hrows := mem_rows_parse h
  have hrow : ∀ n ∈ g.nodes, ∀ x, n.importRow = some x →
      ∃ names, Imports names m.body ∧ n.span.file = file ∧ x = importRow file names := by
    intro n hn x hx
    obtain ⟨names, himports, rfl⟩ := (hrows x).mp (mem_filterMap.mpr ⟨n, hn, hx⟩)
    exact ⟨names, himports, (importRow_eq_some hx).2.1, rfl⟩
  have hnode : ∀ n ∈ g.nodes, ∃ l, importsOf w root (.ofIr n) = .ok l ∧ ∀ p, p ∈ l ↔ n.span.file ≠ ""
      ∧ p.1 = Path.absolute root n.span.file ∧ ∃ names, n.importRow = some (importRow n.span.file names)
      ∧ ∃ x ∈ names, moduleFile? w root x = some p.2 := by
    intro n hn
    refine importsOf_ofIr w root fun x hx => ?_
    obtain ⟨names, -, hfile, rfl⟩ := hrow n hn x hx
    exact ⟨names, by rw [hfile]⟩
  obtain ⟨ls, hls⟩ : ∃ ls, (Store.Graph.ofIr g).nodes.mapM (importsOf w root) = .ok ls := by
    refine mapM_ok ?_
    intro n hn
    obtain ⟨n', hn', rfl⟩ := mem_map.mp hn
    obtain ⟨l, hl, -⟩ := hnode n' hn'
    exact ⟨l, hl⟩
  refine ⟨ls.flatten, by rw [imports, hls]; rfl, ?_⟩
  intro a b
  constructor
  · intro hp
    obtain ⟨l, hl, hp⟩ := mem_flatten.mp hp
    obtain ⟨stored, hstored, hof⟩ := exists_of_mem_mapM hls hl
    obtain ⟨n, hn, rfl⟩ := mem_map.mp hstored
    obtain ⟨l', hl', hmem⟩ := hnode n hn
    obtain rfl := Except.ok.inj (hl'.symm.trans hof)
    obtain ⟨hne, ha, names, hx, hb⟩ := (hmem _).mp hp
    obtain ⟨names', himports, hfile, heq⟩ := hrow n hn _ hx
    rw [hfile] at hne ha heq
    obtain rfl := importRow_inj heq
    exact ⟨hne, ha, names, himports, hb⟩
  · rintro ⟨hne, ha, names, himports, hb⟩
    obtain ⟨n, hn, hx⟩ := mem_filterMap.mp ((hrows _).mpr ⟨names, himports, rfl⟩)
    have hfile := (importRow_eq_some hx).2.1
    obtain ⟨l, hl, hmem⟩ := hnode n hn
    obtain ⟨l', hl', hof⟩ := exists_of_mapM hls (mem_map_of_mem hn)
    obtain rfl := Except.ok.inj (hl.symm.trans hof)
    refine mem_flatten.mpr ⟨l, hl', (hmem _).mpr ?_⟩
    rw [hfile]
    exact ⟨hne, ha, names, hx, hb⟩

/-- `import b` -/
def importing : Syntax.Module := ⟨[.importNames default [⟨default, "b", none⟩]]⟩

theorem importing_found : ∃ g, parse {} (fun _ => .scalar) "m.py" importing = .ok g
    ∧ ∃ l, imports twoFiles "/p" (.ofIr g) = .ok l ∧ ("/p/m.py", "/p/b.py") ∈ l := by
  obtain ⟨g, hg, -⟩ := exists_ok (r := parse {} (fun _ => .scalar) "m.py" importing) (P := fun _ => True)
    (by simpa [Option.isSome_iff_exists] using
      (by decide +kernel : (parse {} (fun _ => .scalar) "m.py" importing).toOption.isSome = true))
  refine ⟨g, hg, ?_⟩
  obtain ⟨l, hl, hmem⟩ := imports_of_parse hg twoFiles "/p"
  refine ⟨l, hl, (hmem _ _).mpr ⟨by decide, by decide, ["b"], ?_, "b", by simp, by decide⟩⟩
  exact ⟨_, .here mem_cons_self, rfl⟩

/-- `from b import f` -/
def importingFrom : Syntax.Module := ⟨[.importFrom default (some "b") [⟨default, "f", none⟩] (some 0)]⟩

/-- The module that a function is imported from is a file of the project, and the map does not have it. -/
theorem importingFrom_not_found : moduleFile? twoFiles "/p" "b" = some "/p/b.py"
    ∧ (do imports twoFiles "/p" (.ofIr (← parse {} (fun _ => .scalar) "m.py" importingFrom))) = .ok [] :=
  ⟨by decide +kernel, by decide +kernel⟩

/-! ## Files that depend on a change -/

/-- A file imports another. -/
def Direct (l : List (String × String)) (a b : String) : Prop := (a, b) ∈ l

theorem mem_dependents {file : String} : a ∈ dependents l file ↔ Direct l a file := by simp [dependents, Direct]

/-- On files that are not imported elsewhere only they themselves depend. -/
theorem mem_iff_depends (h : ∀ a b, Direct l a b → b ∈ files → a ∈ files) :
    a ∈ files ↔ ∃ f ∈ files, ReflTransGen (Direct l) a f := by
  refine ⟨fun ha => ⟨a, ha, .refl⟩, ?_⟩
  rintro ⟨f, hf, hpath⟩
  induction hpath using ReflTransGen.head_induction_on with
  | refl => exact hf
  | head hab _ ih => exact h _ _ hab ih

/-- What is met for the first time joins the queue and both sets. -/
theorem foldl_meet (met : List String) (s : Search) : ∃ new, (∀ a, a ∈ new ↔ a ∈ met ∧ a ∉ s.processed)
    ∧ met.foldl Search.meet s = ⟨s.queue ++ new, s.processed ++ new, s.impacted ++ new⟩ := by
  induction met generalizing s with
  | nil => exact ⟨[], by simp, by simp⟩
  | cons file met ih =>
    obtain ⟨new, hnew, heq⟩ := ih (s.meet file)
    by_cases hfile : file ∈ s.processed
    · have hsame : s.meet file = s := by simp [Search.meet, hfile]
      rw [hsame] at hnew heq
      refine ⟨new, fun a => ?_, by rw [foldl_cons, hsame, heq]⟩
      rw [hnew, mem_cons]
      by_cases ha : a = file
      · simp [ha, hfile]
      · simp [ha]
    · have hjoins : s.meet file = ⟨s.queue ++ [file], s.processed ++ [file], s.impacted ++ [file]⟩ := by
        simp [Search.meet, hfile]
      rw [hjoins] at hnew heq
      refine ⟨file :: new, fun a => ?_, by rw [foldl_cons, hjoins, heq]; simp⟩
      rw [mem_cons, hnew, mem_cons]
      by_cases ha : a = file
      · simp [ha, hfile]
      · simp [ha]

/-- If the importers of all files but those in the queue have been met, the files found are those that depend on the
files met so far. -/
theorem mem_spread (s : Search) (hsets : s.impacted = s.processed) (hqueue : s.queue ⊆ s.processed)
    (hdone : ∀ a b, Direct l a b → b ∈ s.processed → b ∈ s.queue ∨ a ∈ s.processed) :
    a ∈ spread l s ↔ ∃ f ∈ s.processed, ReflTransGen (Direct l) a f := by
  fun_induction spread l s with
  | case1 processed impacted =>
    obtain rfl : impacted = processed := hsets
    exact mem_iff_depends fun a b hab hb => (hdone a b hab hb).resolve_left not_mem_nil
  | case2 file queue processed impacted ih =>
    obtain rfl : impacted = processed := hsets
    obtain ⟨new, hnew, heq⟩ := foldl_meet (dependents l file) ⟨queue, impacted, impacted⟩
    simp only [mem_dependents] at hnew
    obtain ⟨hfile, hqueue⟩ := cons_subset.mp hqueue
    rw [heq] at ih ⊢
    rw [ih rfl (append_subset.mpr ⟨fun _ h => mem_append_left _ (hqueue h), subset_append_right _ _⟩)]
    · constructor
      · rintro ⟨f, hf, hpath⟩
        rcases mem_append.mp hf with hf | hf
        · exact ⟨f, hf, hpath⟩
        · exact ⟨file, hfile, hpath.tail ((hnew f).mp hf).1⟩
      · rintro ⟨f, hf, hpath⟩
        exact ⟨f, mem_append_left _ hf, hpath⟩
    · intro a b hab hb
      simp only [mem_append, hnew] at hb ⊢
      by_cases ha : a ∈ impacted
      · exact .inr (.inl ha)
      rcases hb with hb | hb
      · rcases hdone a b hab hb with hb | ha'
        · rcases mem_cons.mp hb with rfl | hb
          · exact .inr (.inr ⟨hab, ha⟩)
          · exact .inl (.inl hb)
        · exact absurd ha' ha
      · exact .inl (.inr hb)

/-- The files found are those from which a chain of imports leads to a changed one. -/
theorem mem_spread_iff (changed : List String) : a ∈ spread l ⟨changed, changed.eraseDups, changed.eraseDups⟩ ↔
    ∃ f ∈ changed, ReflTransGen (Direct l) a f := by
  rw [mem_spread _ rfl (fun _ h => mem_eraseDups.mpr h) fun _ b _ hb => .inl (mem_eraseDups.mp hb)]
  simp only [mem_eraseDups]

/-- What the stored graph of a project, if it is found, says about a change. -/
theorem impactedFiles_eq (root : String) {changed : List String} (h : changed ≠ [])
    {x : Option (Store.Graph × Value)} (hproject : loadProject w (some root) = .ok x) :
    impactedFiles w root changed = impacted w root (x.map (·.1)) changed := by
  rw [impactedFiles, if_neg (by simpa using h), hproject]
  rfl

/-- Where the stored graph of a project is read, the files that a change concerns are those from which a chain of
imports leads to a changed file. Once a file of the project has changed, and nothing else, the graph is not read any
more: the files that are found for a change are then the changed ones, and none that imports them. -/
theorem impacted_after_change {w w' : Workspace} {root file : String} {g : Store.Graph} {header : Value}
    {m : Store.Manifest} (hw : w.Rooted) (hread : loadProject w (some root) = .ok (some (g, header)))
    (hm : Store.Manifest.load w formatVersion (projectRoot w (some root)) = .ok m)
    (henters : m.Enters w (projectRoot w (some root)) file) (hapart : Store.Apart w w' file)
    (hchanged : fileHash w' file ≠ fileHash w file) :
    impactedFiles w' root [file] = .ok [file] ∧ (∀ changed, impactedFiles w' root changed = .ok changed.eraseDups)
    ∧ ∀ changed, changed ≠ [] → (∀ f, imports w root g = .error f → impactedFiles w root changed = .error f)
      ∧ ∀ l, imports w root g = .ok l → ∃ found, impactedFiles w root changed = .ok found
        ∧ ∀ a, a ∈ found ↔ ∃ f ∈ changed, ReflTransGen (Direct l) a f := by
  have hnone := loadProject_of_changed hw hread hm henters hapart hchanged
  have hfound : ∀ changed, impactedFiles w' root changed = .ok changed.eraseDups := by
    intro changed
    by_cases hempty : changed = []
    · rw [hempty]
      rfl
    · rw [impactedFiles_eq w' root hempty hnone]
      rfl
  refine ⟨hfound [file], hfound, ?_⟩
  intro changed hempty
  rw [impactedFiles_eq w root hempty hread]
  have himpacted : impacted w root ((some (g, header)).map (·.1)) changed = imports w root g >>= fun l =>
    .ok (spread l ⟨changed, changed.eraseDups, changed.eraseDups⟩) := rfl
  rw [himpacted]
  constructor
  · intro f hf
    rw [hf]
    rfl
  · intro l hl
    rw [hl]
    exact ⟨_, rfl, fun a => mem_spread_iff changed⟩

/-- An edited module of a stored project is found alone. -/
theorem edited_found_alone : ∃ w w' : Workspace, Store.Apart w w' "/p/b.py"
    ∧ fileHash w' "/p/b.py" ≠ fileHash w "/p/b.py" ∧ impactedFiles w' "/p" ["/p/b.py"] = .ok ["/p/b.py"] := by
  obtain ⟨w, w', m, header, hw, hm, henters, hread, hapart, hchanged, -⟩ := twoFiles_edited
  exact ⟨w, w', hapart, hchanged, (impacted_after_change hw hread hm henters hapart hchanged).1⟩

/-- The file of a node, if it has one, and the modules that it imports are texts. -/
def saysTexts (n : Store.Node) : Bool :=
  (match n.place.file? with
    | .ok none | .ok (some (.text _)) => true
    | _ => false) && match importedModules n with
      | .ok l => l.all (·.text?.isSome)
      | .error _ => false

theorem importsOf_ok (root : String) {n : Store.Node} (h : saysTexts n = true) :
    ∃ l, importsOf w root n = .ok l := by
  obtain ⟨hfile, hmodules⟩ := Bool.and_eq_true_iff.mp h
  unfold importsOf
  split at hfile
  · next hnone => exact ⟨[], by rw [hnone]; rfl⟩
  · next file hsome =>
    rw [hsome]
    split at hmodules
    · next l hl =>
      have hnames : (l.filterMap text?).map text = l := by
        rw [map_filterMap]
        refine (filterMap_congr fun v hv => ?_).trans filterMap_some
        have hv := all_eq_true.mp hmodules v hv
        cases v with
        | text s => rfl
        | _ => simp [text?] at hv
      have hmap := mapM_moduleFile? w root file (l.filterMap text?)
      rw [hnames] at hmap
      exact ⟨_, by rw [hl]; simp only [bind, Except.bind] at hmap ⊢; rw [hmap]; rfl⟩
    · cases hmodules
  · cases hfile

/-- The sets of files that have the changed ones and, with a file, all that import it. -/
def closed (l : List (String × String)) (changed : List String) : Set (Set String) :=
  {s | (∀ f ∈ changed, f ∈ s) ∧ ∀ a b, Direct l a b → b ∈ s → a ∈ s}

/-- A graph whose nodes name files and modules by texts has an import map. The files that a change concerns by a map,
whatever cycles it has, are the least set of files that has the changed ones and, with a file, all that import it. The
order of the changed files and their repetitions do not matter. -/
theorem impacted_least (root : String) (g : Store.Graph) :
    (g.nodes.all saysTexts = true → ∃ l, imports w root g = .ok l)
    ∧ ∀ l, imports w root g = .ok l → ∀ changed, ∃ found, impacted w root (some g) changed = .ok found
      ∧ IsLeast (closed l changed) {a | a ∈ found}
      ∧ (∀ header, loadProject w (some root) = .ok (some (g, header)) → changed ≠ [] →
        impactedFiles w root changed = .ok found)
      ∧ ∀ changed', (∀ f, f ∈ changed' ↔ f ∈ changed) →
        ∃ found', impacted w root (some g) changed' = .ok found' ∧ ∀ a, a ∈ found' ↔ a ∈ found := by
  constructor
  · intro hg
    obtain ⟨ls, hls⟩ := mapM_ok fun n hn => importsOf_ok w root (all_eq_true.mp hg n hn)
    exact ⟨ls.flatten, by rw [imports, hls]; rfl⟩
  intro l hl changed
  have hok : ∀ changed, impacted w root (some g) changed
      = .ok (spread l ⟨changed, changed.eraseDups, changed.eraseDups⟩) := by
    intro changed
    rw [impacted, hl]
    rfl
  refine ⟨_, hok changed, ⟨⟨?_, ?_⟩, ?_⟩, ?_, ?_⟩
  · exact fun f hf => (mem_spread_iff changed).mpr ⟨f, hf, .refl⟩
  · intro a b hab hb
    obtain ⟨f, hf, hpath⟩ := (mem_spread_iff changed).mp hb
    exact (mem_spread_iff changed).mpr ⟨f, hf, .head hab hpath⟩
  · rintro s ⟨hchanged, hclosed⟩ a ha
    obtain ⟨f, hf, hpath⟩ := (mem_spread_iff changed).mp ha
    induction hpath using ReflTransGen.head_induction_on with
    | refl => exact hchanged f hf
    | head hab hpath ih => exact hclosed _ _ hab (ih ((mem_spread_iff changed).mpr ⟨f, hf, hpath⟩))
  · intro header hread hchanged
    rw [impactedFiles_eq w root hchanged hread]
    exact hok changed
  · intro changed' hsame
    exact ⟨_, hok changed', fun a => by simp only [mem_spread_iff, hsame]⟩

/-- A module concerns the one that imports it, however often it is named. -/
theorem importer_impacted : ∃ found, impacted twoFiles "/p" (some importingGraph) ["/p/b.py", "/p/b.py"] = .ok found
    ∧ "/p/m.py" ∈ found := by
  have hleast := impacted_least twoFiles "/p" importingGraph
  obtain ⟨l, hl⟩ := hleast.1 (by decide)
  have hdirect : Direct l "/p/m.py" "/p/b.py" := by
    obtain rfl := Except.ok.inj (hl.symm.trans (by decide : _ = Except.ok [("/p/m.py", "/p/b.py")]))
    exact mem_cons_self
  obtain ⟨found, hfound, ⟨⟨hchanged, hclosed⟩, -⟩, -⟩ := hleast.2 l hl ["/p/b.py", "/p/b.py"]
  exact ⟨found, hfound, hclosed _ _ hdirect (hchanged _ mem_cons_self)⟩

def saysImport (file module : String) (n : Store.Node) : Bool :=
  n.kind.isKey "Import" && (n.place.value.sub "file").isKey file && match importedModules n with
      | .ok l => l.any (·.isKey module)
      | .error _ => false

/-- The graph of a stored project says that one file imports the other; once that is edited, the first is not found. -/
theorem importer_not_found : ∃ (w w' : Workspace) (g : Store.Graph) (header : Value), Store.Apart w w' "/p/b.py"
    ∧ loadProject w (some "/p") = .ok (some (g, header)) ∧ g.nodes.any (saysImport "m.py" "b") = true
    ∧ moduleFile? w' "/p" "b" = some "/p/b.py" ∧ impactedFiles w' "/p" ["/p/b.py"] = .ok ["/p/b.py"] := by
  obtain ⟨w, w', m, header, hw, hm, henters, hread, hapart, hchanged, hb⟩ := twoFiles_edited
  have hsays : bothGraphs.nodes.any (saysImport "m.py" "b") = true := by decide
  have hmodule : moduleFile? w' "/p" "b" = some "/p/b.py" := by
    have hfile : Path.join "/p" (Text.replace "b" "." "/" ++ ".py") = "/p/b.py" := by decide
    rw [moduleFile?, hfile, if_pos (Workspace.has_of_file? hb)]
  refine ⟨w, w', _, header, hapart, hread, hsays, hmodule, ?_⟩
  rw [impactedFiles_eq w' "/p" (by simp) (loadProject_of_changed hw hread hm henters hapart hchanged)]
  rfl

end SecScan.Scan
