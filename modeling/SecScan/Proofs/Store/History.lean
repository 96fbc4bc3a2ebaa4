import SecScan.Proofs.Store.Projects

/-!
What is found after any number of attempts to store graphs, and of changes to the sources. The file of a graph and the
manifest are written one after the other, so an attempt that ends in between leaves its own graph, or the front of it,
under an entry made by an earlier one (`found_after_history`).
-/

namespace SecScan.Store

open Digest
open Json (image depth levelLimit)
open List SecScan.Path Manifest
open Files (Workspace Content)

variable {l : List String} {fault : Option Fault} {g : Graph} {a x : Attempt} {w w' : Workspace}
  {k c : Content}
variable {log : List Attempt} {file : String}

/-! ## The front of a graph -/

/-- The first records of a graph, in the order in which they are written. -/
def Graph.front (g : Graph) (n : Nat) : Graph :=
  { nodes := g.nodes.take n, edges := g.edges.take (n - g.nodes.length)
    symbols := g.symbols.take (n - g.nodes.length - g.edges.length) }

theorem records_front (g : Graph) (n : Nat) : records (g.front n) = (records g).take n := by
  simp only [records, Graph.front, take_append, map_take, length_append, length_map, Nat.sub_sub]

theorem Graph.front_length (g : Graph) : g.front (records g).length = g := by
  obtain ⟨nodes, edges, symbols⟩ := g
  simp only [front, records, length_append, length_map, Graph.mk.injEq, take_eq_self_iff]
  omega

theorem take_of_linesSoFar {ls : List (Try String)} (h : linesSoFar ls = (l, fault)) :
    linesSoFar (ls.take l.length) = (l, none) ∧ (fault = none → l.length = ls.length) := by
  induction ls generalizing l with
  | nil =>
    cases h
    exact ⟨rfl, fun _ => rfl⟩
  | cons x ls ih =>
    cases x with
    | error e =>
      cases h
      exact ⟨rfl, nofun⟩
    | ok s =>
      obtain ⟨hl, hfault⟩ := Prod.mk.inj h
      obtain ⟨htake, hlength⟩ := ih (Prod.ext rfl hfault)
      rw [← hl]
      refine ⟨?_, ?_⟩
      · rw [length_cons, take_succ_cons, linesSoFar, htake]
      · intro hnone
        rw [length_cons, length_cons, hlength hnone]

/-- What is read where a graph was written as far as it could be: the front of the graph, and all of it if nothing
was in the way. -/
theorem front_of_readLines {h : Header}
    (hl : linesSoFar (lines h g) = (l, fault)) (hversion : h.version = formatVersion)
    (hheader : depth h.value ≤ levelLimit) {x : Graph × Value} (hread : readLines formatVersion (textOf l) = .ok x) :
    ∃ n, x = ((g.front n).stored, image h.value) ∧ (fault = none → g.front n = g) := by
  cases hs : Json.render {} h.value with
  | error e =>
    have hnone : l = [] := by
      have hlines : linesSoFar (lines h g) = ([], some e) := by
        rw [lines, hs]
        rfl
      rw [hl] at hlines
      exact (Prod.mk.inj hlines).1
    rw [hnone] at hread
    cases hread.symm.trans (show readLines formatVersion (textOf []) = .error _ from rfl)
  | ok s =>
    rw [linesSoFar_lines hs] at hl
    obtain ⟨rfl, hfault⟩ := Prod.mk.inj hl
    obtain ⟨htake, hlength⟩ := take_of_linesSoFar (show linesSoFar (records g) = (_, fault) from Prod.ext rfl hfault)
    refine ⟨(linesSoFar (records g)).1.length, ?_, ?_⟩
    · refine eq_of_readLines ?_ hversion hheader hread
      rw [linesSoFar_lines hs, records_front, htake]
    · intro hnone
      rw [hlength hnone, Graph.front_length]

/-! ## Histories -/

/-- An attempt to store a graph: where the file is, the graph, what the file held, and what was answered. -/
structure Attempt where
  path : String
  graph : Graph
  held : Option Content
  answer : Try String

namespace Attempt

def of (w : Workspace) (g : Graph) (source : String) (r : Try String) : Attempt :=
  ⟨w.absolute source, g, w.file? source, r⟩

/-- The graph was stored while the file was there. -/
def Completed (a : Attempt) (c : Content) : Prop := a.held = some c ∧ ∃ cache, a.answer = .ok cache

/-- The name of the file in the manifest. -/
def name (root : String) (a : Attempt) : String := relative root a.path

theorem path_of (w : Workspace) (g : Graph) (source : String) (r : Try String) :
    (of w g source r).path = w.absolute source := by
  rw [of]

theorem name_of (root : String) (w : Workspace) (g : Graph) (source : String) (r : Try String) :
    (of w g source r).name root = relative root (w.absolute source) := by
  rw [name, path_of]

def IsFor (a : Attempt) (w : Workspace) (file : String) : Prop := parts a.path = parts (w.absolute file)

/-- A name stands for one file. -/
theorem isFor_iff (ha : isAbsolute a.path = true) (hw : w.Rooted) (root file : String) :
    a.IsFor w file ↔ a.name root = relative root (w.absolute file) := by
  constructor
  · intro h
    rw [name, relative, relative, show parts a.path = _ from h]
  · exact parts_eq_of_relative ha (isAbsolute_absolute hw file)

/-- What an attempt writes where the graph is kept: all of it, if the answer is not a fault. -/
def Wrote (a : Attempt) (k : Content) : Prop :=
  ∃ fault, a.graph.Printed fault k ∧ ∀ cache, a.answer = .ok cache → fault = none

theorem Wrote.front (h : a.Wrote k) {header : Value}
    (hread : readLines formatVersion k = .ok (g, header)) : ∃ n, g.value = image (a.graph.front n).value
      ∧ ∀ cache, a.answer = .ok cache → g.value = image a.graph.value := by
  obtain ⟨fault, ⟨hd, l, rfl, hlines, hversion, hheader⟩, hall⟩ := h
  obtain ⟨n, hx, hfront⟩ := front_of_readLines hlines hversion hheader hread
  obtain ⟨rfl, -⟩ := Prod.mk.inj hx
  refine ⟨n, Graph.value_stored _, ?_⟩
  intro cache hcache
  rw [Graph.value_stored, hfront (hall cache hcache)]

end Attempt

/-- The file that the graph of a file with this name is kept in. -/
def cached (root name : String) : String := join (cacheDir root) (graphName name)

theorem digest_of_graphName {name name' : String} (h : graphName name = graphName name') :
    sha256 name = sha256 name' := by
  have htexts := congrArg String.toList h
  simp only [graphName, String.toList_append, append_cancel_right_eq, append_cancel_left_eq] at htexts
  exact String.toList_inj.mp htexts

theorem graphPath_eq_cached (w : Workspace) (g : Graph) (root source : String) (r : Try String) :
    graphPath root (w.absolute source) = cached root ((Attempt.of w g source r).name root) := by
  rw [graphPath, cached, graphName, Attempt.name_of]

/-- All that can happen to a workspace in which graphs are stored below one root, with the attempts to store one, the
last first. Sources are edited, removed and made again outside of the directory that the graphs are kept in. -/
inductive History (root : String) : Workspace → List Attempt → Prop where
  | start {w : Workspace} (hw : w.Rooted) (hroot : isAbsolute root = true)
      (hnone : load w formatVersion root = .ok { version := formatVersion }) : History root w []
  | elsewhere {w w' : Workspace} {log : List Attempt} (h : History root w log) (hw : w'.Rooted)
      (hsame : ∀ x, Path.IsName x → w'.file? (join (cacheDir root) x) = w.file? (join (cacheDir root) x)) :
      History root w' log
  | attempted {w w' : Workspace} {log : List Attempt} {g : Graph} {file : String} {given : Option String}
      {r : Try String} (h : History root w log) (hroot : rootFor w file given = root)
      (houtside : ¬ parts (cacheDir root) <+: parts (w.absolute (sourceIn root file)))
      (hsave : save w g file given = (r, w')) :
      History root w' (.of w g (sourceIn root file) r :: log)

/-- An entry of the manifest is that of the last completed attempt for its name, and what is kept was written by that
attempt or a later one. -/
def Backed (root : String) (w : Workspace) (log : List Attempt) (name : String) (e : Entry) : Prop :=
  ∃ later b earlier c, log = later ++ b :: earlier ∧ b.name root = name ∧ b.Completed c
    ∧ e.hash = .text (sha256Bytes c.toBytes) ∧ e.cache = .text (cached root name)
    ∧ (∀ a ∈ later, a.name root = name → ∀ c, ¬ a.Completed c)
    ∧ ∃ a ∈ later ++ [b], graphName (a.name root) = graphName name
      ∧ ∃ k, a.Wrote k ∧ w.file? (cached root name) = some k

/-- What holds all along a history. -/
structure Kept (root : String) (w : Workspace) (log : List Attempt) : Prop where
  rooted : w.Rooted
  absolute : isAbsolute root = true
  paths : ∀ a ∈ log, isAbsolute a.path = true
  backed : ∃ m, load w formatVersion root = .ok m ∧ ∀ name e, m.entries.lookup name = some e → Backed root w log name e

variable {root : String}

/-- An entry stays backed if a new attempt is not completed, or is one for another name. -/
theorem Backed.later {name : String} {e : Entry}
    (h : Backed root w log name e) (hx : x.name root = name → ∀ c, ¬ x.Completed c)
    (hfile : w'.file? (cached root name) = w.file? (cached root name)
      ∨ graphName (x.name root) = graphName name ∧ ∃ k, x.Wrote k ∧ w'.file? (cached root name) = some k) :
    Backed root w' (x :: log) name e := by
  obtain ⟨later, b, earlier, c, rfl, hb, hcompleted, hhash, hcache, hlater, a, ha, hname, k, hwrote, hk⟩ := h
  refine ⟨x :: later, b, earlier, c, rfl, hb, hcompleted, hhash, hcache, ?_, ?_⟩
  · intro a ha
    rcases mem_cons.mp ha with rfl | ha
    · exact hx
    · exact hlater a ha
  · rcases hfile with hsame | ⟨hnew, k, hwrote, hk⟩
    · exact ⟨a, .tail _ ha, hname, k, hwrote, hsame.trans hk⟩
    · exact ⟨x, mem_cons_self, hnew, k, hwrote, hk⟩

theorem backed_completed (log : List Attempt) (t : Value)
    (hcompleted : x.Completed c) (hwrote : x.Wrote k) (hk : w.file? (cached root (x.name root)) = some k) :
    Backed root w (x :: log) (x.name root)
      ⟨.text (x.name root), .text (sha256Bytes c.toBytes), .text (cached root (x.name root)), t⟩ :=
  ⟨[], x, log, c, rfl, rfl, hcompleted, rfl, rfl, nofun, x, mem_singleton_self x, rfl, k, hwrote, hk⟩

section

variable {w w' : Workspace} {g : Graph} {root source cache : String} {r : Try String} (hw : w.Rooted)
  (hroot : isAbsolute root = true) (h : Saves w g root source cache (r, w'))
  (hcache : cache = cached root ((Attempt.of w g source r).name root))
include hw hroot h hcache

theorem Saves.cached_eq (name : String) : (w'.file? (cached root name) = w.file? (cached root name)
      ∧ (graphName ((Attempt.of w g source r).name root) = graphName name → ∃ e, r = .error e))
    ∨ graphName ((Attempt.of w g source r).name root) = graphName name
      ∧ ∃ k, (Attempt.of w g source r).Wrote k ∧ w'.file? (cached root name) = some k := by
  by_cases hname : graphName ((Attempt.of w g source r).name root) = graphName name
  · have hpath : cache = cached root name := by rw [hcache, cached, cached, hname]
    rw [hpath] at h
    have hplaced : ∀ {c w1}, w.place (cached root name) c = .ok w1 → w1.file? (cached root name) = some c := by
      intro c w1 hplace
      rw [Workspace.file?_place hw hplace, if_pos ⟨join_ne_empty _ (isName_graphName name).1, rfl⟩]
    cases h with
    | unwritten e => exact .inl ⟨rfl, fun _ => ⟨e, rfl⟩⟩
    | failed e hk hplace => exact .inr ⟨hname, _, ⟨_, hk, fun _ h => by cases h⟩, hplaced hplace⟩
    | absent hk hplace => exact .inr ⟨hname, _, ⟨_, hk, fun _ _ => rfl⟩, hplaced hplace⟩
    | entered hk hplace hload hsource hsave =>
      refine .inr ⟨hname, _, ⟨_, hk, fun _ _ => rfl⟩, ?_⟩
      exact (Manifest.file?_save (hw.congr (Workspace.cwd_place hplace).1) hsave (cached_apart hroot name)).trans
        (hplaced hplace)
  · refine .inl ⟨h.file?_eq hw ?_ (cached_apart hroot name), fun heq => absurd heq hname⟩
    rw [hcache]
    exact fun hsame => hname (cached_inj hroot (isName_graphName _) (isName_graphName _) hsame).symm

/-- What an attempt does to the manifest: it enters the file if it is completed, and nothing otherwise. -/
theorem Saves.load_eq (houtside : ¬ parts (cacheDir root) <+: parts (w.absolute source)) {m : Manifest}
    (hload : load w formatVersion root = .ok m) :
    (load w' formatVersion root = .ok m ∧ ∀ c, ¬ (Attempt.of w g source r).Completed c)
    ∨ ∃ c t, (Attempt.of w g source r).Completed c ∧ load w' formatVersion root = .ok { m with
          time := t
          entries := putField ((Attempt.of w g source r).name root)
            ⟨.text ((Attempt.of w g source r).name root), .text (sha256Bytes c.toBytes),
              .text cache, .int t⟩ m.entries } := by
  have hplaced : ∀ {c w1}, w.place cache c = .ok w1 →
      load w1 formatVersion root = .ok m ∧ w1.file? source = w.file? source := by
    intro c w1 hplace
    rw [hcache] at hplace
    refine ⟨(load_placed hw hroot hplace formatVersion).trans hload, ?_⟩
    rw [Workspace.file?_place hw hplace,
      if_neg fun hand => outside_ne_cached hroot houtside (isName_graphName _) hand.2]
  cases h with
  | unwritten => exact .inl ⟨hload, fun c hc => nomatch hc.2⟩
  | failed e hk hplace => exact .inl ⟨(hplaced hplace).1, fun c hc => nomatch hc.2⟩
  | absent hk hplace hsource =>
    refine .inl ⟨(hplaced hplace).1, ?_⟩
    rintro c ⟨hheld, -⟩
    rw [(hplaced hplace).2] at hsource
    exact absurd (hheld.symm.trans hsource) nofun
  | @entered _ c w1 _ m1 hk hplace hload1 hsource hsave =>
    obtain ⟨hload', hfile⟩ := hplaced hplace
    obtain rfl := Except.ok.inj (hload1.symm.trans hload')
    have hcwd := (Workspace.cwd_place hplace).1
    refine .inr ⟨c, w1.seconds, ⟨hfile.symm.trans hsource, _, rfl⟩, ?_⟩
    rw [load_saved ((sound_load hload').record w1 _ source _ _) (hw.congr hcwd) hsave formatVersion,
      record, nameOf, Workspace.absolute_congr hcwd, Attempt.name_of]

end

/-- One attempt keeps every entry backed. -/
theorem Kept.attempted (h : Kept root w log)
    {given : Option String} {r : Try String} (hroot : rootFor w file given = root)
    (houtside : ¬ parts (cacheDir root) <+: parts (w.absolute (sourceIn root file)))
    (hsave : save w g file given = (r, w')) :
    Kept root w' (.of w g (sourceIn root file) r :: log) := by
  obtain ⟨m, hload, hbacked⟩ := h.backed
  have hsaves := saves_save w g file given
  rw [hsave, hroot] at hsaves
  have hfile := hsaves.cached_eq h.rooted h.absolute (graphPath_eq_cached w g root _ r)
  have hpath : isAbsolute (Attempt.of w g (sourceIn root file) r).path = true := by
    rw [Attempt.path_of]
    exact isAbsolute_absolute h.rooted _
  refine ⟨h.rooted.congr hsaves.cwd_eq, h.absolute, forall_mem_cons.mpr ⟨hpath, h.paths⟩, ?_⟩
  rcases hsaves.load_eq h.rooted h.absolute (graphPath_eq_cached w g root _ r) houtside hload with
    ⟨hload', hnot⟩ | ⟨c, t, hcompleted, hload'⟩
  · exact ⟨m, hload', fun name e he => (hbacked name e he).later (fun _ => hnot) ((hfile name).imp_left And.left)⟩
  · refine ⟨_, hload', ?_⟩
    intro name e he
    rw [lookup_putField] at he
    split at he
    · next hname =>
      obtain rfl := Option.some.inj he
      rw [graphPath_eq_cached w g root _ r, hname]
      rcases hfile ((Attempt.of w g (sourceIn root file) r).name root) with ⟨-, herror⟩ | ⟨-, k, hwrote, hk⟩
      · obtain ⟨f, hf⟩ := herror rfl
        obtain ⟨-, cache, hcache⟩ := hcompleted
        exact absurd (hf.symm.trans hcache) nofun
      · exact backed_completed log _ hcompleted hwrote hk
    · next hname => exact (hbacked name e he).later (fun heq => absurd heq.symm hname) ((hfile name).imp_left And.left)

theorem History.kept (h : History root w log) : Kept root w log := by
  induction h with
  | start hw hroot hnone => exact ⟨hw, hroot, nofun, _, hnone, nofun⟩
  | elsewhere h hw hsame ih =>
    obtain ⟨m, hload, hbacked⟩ := ih.backed
    refine ⟨hw, ih.absolute, ih.paths, m, (load_congr (hsame _ isName_manifest) _).trans hload, ?_⟩
    intro name e he
    obtain ⟨later, b, earlier, c, hlog, hb, hcompleted, hhash, hcache, hlater, a, ha, hname, k, hwrote, hk⟩ :=
      hbacked name e he
    exact ⟨later, b, earlier, c, hlog, hb, hcompleted, hhash, hcache, hlater, a, ha, hname, k, hwrote,
      (hsame _ (isName_graphName name)).trans hk⟩
  | attempted h hroot houtside hsave ih => exact ih.attempted hroot houtside hsave

/-- What is found after a history, if the digests of the names and of the contents in it tell them apart. The last
attempt for the file that was completed was made when the file held just what it holds now. But the graph is the front
of that of some attempt for the file since then. It is all of that of the completed attempt if there was none since. -/
theorem found_after_history {root file : String} {given : Option String} {w : Workspace} {log : List Attempt}
    {g : Graph} {header : Value} (h : History root w log) (hroot : projectRoot w given = root)
    (hload : loadFile w file given = .ok (some (g, header)))
    (hnames : ∀ a ∈ log, Digest.sha256 (a.name root) = Digest.sha256 (Path.relative root (w.absolute file)) →
      a.name root = Path.relative root (w.absolute file))
    (hcontents : ∀ a ∈ log, ∀ c c', a.held = some c → w.file? file = some c' →
      Digest.sha256Bytes c.toBytes = Digest.sha256Bytes c'.toBytes → c.toBytes = c'.toBytes) :
    ∃ later b earlier c c', log = later ++ b :: earlier ∧ b.IsFor w file ∧ b.Completed c ∧ w.file? file = some c'
      ∧ c.toBytes = c'.toBytes ∧ (∀ a ∈ later, a.IsFor w file → ∀ c, ¬ a.Completed c)
      ∧ (∃ a ∈ later ++ [b], a.IsFor w file ∧ (∃ n, g.value = image (a.graph.front n).value)
        ∧ ∀ cache, a.answer = .ok cache → g.value = image a.graph.value)
      ∧ ((∀ a ∈ later, ¬ a.IsFor w file) → g.value = image b.graph.value) := by
  obtain ⟨m, e, c', cache, k, hm, he, hc', hhash', hcache', hk, hread⟩ := loadFile_eq_some.mp hload
  rw [hroot] at hm he
  obtain ⟨m', hm', hbacked⟩ := h.kept.backed
  obtain rfl := Except.ok.inj (hm.symm.trans hm')
  obtain ⟨later, b, earlier, c, rfl, hb, hcompleted, hhash, hcache, hlater, a, ha, hname, k', hwrote, hk'⟩ :=
    hbacked _ e he
  obtain rfl := Value.text.inj (hcache'.symm.trans hcache)
  obtain rfl := Option.some.inj (hk.symm.trans hk')
  have hfor : ∀ a ∈ later ++ b :: earlier, a.IsFor w file ↔ a.name root = Path.relative root (w.absolute file) :=
    fun a ha => Attempt.isFor_iff (h.kept.paths a ha) h.kept.rooted root file
  have hmem : ∀ a ∈ later ++ [b], a ∈ later ++ b :: earlier := by
    intro a ha
    rw [append_cons]
    exact mem_append_left _ ha
  have hwritten : a.IsFor w file := (hfor a (hmem a ha)).mpr (hnames a (hmem a ha) (digest_of_graphName hname))
  obtain ⟨n, hfront, hall⟩ := hwrote.front hread
  refine ⟨later, b, earlier, c, c', rfl, (hfor b (by simp)).mpr hb, hcompleted, hc', ?_, ?_,
    ⟨a, ha, hwritten, ⟨n, hfront⟩, hall⟩, ?_⟩
  · exact hcontents b (by simp) c c' hcompleted.1 hc' (Value.text.inj (hhash.symm.trans hhash'))
  · intro a ha hisFor
    exact hlater a ha ((hfor a (by simp [ha])).mp hisFor)
  · intro hnone
    rcases mem_append.mp ha with ha | ha
    · exact absurd hwritten (hnone a ha)
    · obtain rfl := mem_singleton.mp ha
      obtain ⟨-, cache, hanswer⟩ := hcompleted
      exact hall cache hanswer

/-! ## A graph under the entry of another -/

/-- There is as much room after a source was written anew as before. -/
theorem Room.written {files sources : List String} (h : Room w root files sources) (hfile : file ∈ sources)
    (c : Content) (t : Float) :
    Room { w with disk := w.disk.put (w.absolute file) (.file c t) } root files sources := by
  have hmem := mem_append_right (root :: headFile root :: files) hfile
  refine { h with only := h.only.put ?_ }
  rw [h.shelf.absolute hmem, (h.shelf.normal _ hmem).2]
  exact mem_append_right _ hfile

/-- A source of a project is written anew. -/
theorem History.rewritten {files sources : List String} (h : History root w log)
    (hroom : Room w root files sources) (hfile : file ∈ sources)
    (houtside : ¬ parts (cacheDir root) <+: parts (w.absolute file)) (c : Content) :
    ∃ w', History root w' log ∧ Room w' root files sources ∧ Apart w w' file ∧ w'.file? file = some c := by
  have hapart := apart_put hroom.rooted file c 0.0
  refine ⟨_, h.elsewhere (h.kept.rooted.congr hapart.cwd) ?_, hroom.written hfile c 0.0, hapart,
    file?_put w (hroom.shelf.ne_empty (mem_append_right _ hfile)) c 0.0⟩
  exact fun _ hx => hapart.same _ (outside_ne_cached h.kept.absolute houtside hx).symm

/-- A graph with a record behind the first that has no JSON text. -/
def halfWritable : Graph :=
  { nodes := [{ id := .text "Assign:m.py:1:0:1", kind := .text "Assign" },
      { id := .text "Constant:m.py:1:4:2", kind := .text "Constant", attrs := .obj [("value", .bytes [49])] }] }

theorem halfWritable_lines : (linesSoFar (records halfWritable)).2.isSome = true
    ∧ linesSoFar (records (halfWritable.front 1)) = ((linesSoFar (records halfWritable)).1, none) := by
  have hone : (linesSoFar (records halfWritable)).1.length = 1 := by decide
  obtain ⟨htake, -⟩ := take_of_linesSoFar (Prod.mk.eta (p := linesSoFar (records halfWritable))).symm
  rw [hone] at htake
  exact ⟨by decide, by rw [records_front, htake]⟩

/-- A file is stored and edited. A second attempt ends at a record that cannot be written, and the edit is taken
back. -/
theorem edited_history : ∃ (w : Workspace) (a b : Attempt) (g : Graph) (header : Value), History "/p" w [a, b]
    ∧ w.cwd = "/p" ∧ loadFile w "m.py" none = .ok (some (g, header)) ∧ w.file? "m.py" = some (.text "x = 1\n")
    ∧ (a.path = "/p/m.py" ∧ a.held = some (.text "y = b'1'\n") ∧ ∃ e, a.answer = .error e)
    ∧ (b.path = "/p/m.py" ∧ b.held = some (.text "x = 1\n") ∧ b.graph = oneNode)
    ∧ g.value = image (halfWritable.front 1).value := by
  have hrooted : (oneFile "/p").Rooted := by unfold Workspace.Rooted; decide
  obtain ⟨hroom, hempty⟩ := room_oneFile hrooted
  have hp : "/p/m.py" ∈ projectSources := by decide
  have habs := shelf_project.absolute (mem_append_right _ hp)
  have houtside : ∀ v : Workspace, ¬ parts (cacheDir "/p") <+: parts (v.absolute "/p/m.py") := by
    intro v
    rw [(parts_cacheDir (by decide)).2, habs, show parts "/p/m.py" = ["p", "m.py"] by decide,
      show parts "/p" = ["p"] by decide]
    simp
  have hsource : sourceIn "/p" "m.py" = "/p/m.py" := by decide
  have hrootFor : ∀ v : Workspace, v.cwd = "/p" → rootFor v "m.py" none = "/p" := by
    intro v hv
    rw [rootFor, if_neg (by decide), hv]
  have hca : graphPath "/p" "/p/m.py" ∈ keptFiles := by simp [keptFiles]
  have hne := graphPath_ne_manifestPath (show isAbsolute "/p" = true by decide) "/p/m.py"
  generalize hcache : graphPath "/p" "/p/m.py" = ca at hca hne
  have hother : ∀ q ∈ keptFiles, ∀ v : Workspace, v.absolute q ≠ v.absolute "/p/m.py" := by
    intro q hq v
    rw [habs, shelf_project.absolute (by simp [hq])]
    exact (shelf_project.source_ne hq hp).symm
  obtain ⟨x, hx⟩ : ∃ x, fileHash (oneFile "/p") "/p/m.py" = some x := ⟨_, rfl⟩
  have hfile : (oneFile "/p").file? "/p/m.py" = some (.text "x = 1\n") := rfl
  -- the first attempt is completed
  obtain ⟨-, w1, hsave1, hroom1, hload1, hcwd1, -⟩ := hroom.save_kept (hrootFor _ rfl) hsource hp hcache hca
    records_oneNode .empty hempty hx
  have hhistory1 := (History.start hrooted (by decide) hempty).attempted (hrootFor _ rfl)
    (by rw [hsource]; exact houtside _) hsave1
  -- the file is edited
  obtain ⟨w2, hhistory2, hroom2, hapart2, hfile2⟩ := hhistory1.rewritten hroom1 hp (houtside _) (.text "y = b'1'\n")
  have hcwd2 : w2.cwd = "/p" := hapart2.cwd.trans hcwd1
  -- the second attempt ends at a record
  obtain ⟨e, he⟩ := Option.isSome_iff_exists.mp halfWritable_lines.1
  obtain ⟨s, w3, hsave3, hroom3, hplace, hs⟩ :=
    @Room.save_eq _ _ _ _ _ _ halfWritable "m.py" none hroom2 (hrootFor _ hcwd2) hsource (by rw [habs, hcache]) hca
  rw [he] at hsave3
  have hfile3 := fun q hq => shelf_project.file?_place (q := q) hroom2.rooted hplace hca (mem_append_left _ hq)
  have hhistory3 := hhistory2.attempted (hrootFor _ hcwd2) (by rw [hsource]; exact houtside _) hsave3
  -- the edit is taken back
  obtain ⟨w4, hhistory4, -, hapart4, hfile4⟩ := hhistory3.rewritten hroom3 hp (houtside _) (.text "x = 1\n")
  have hcwd4 : w4.cwd = "/p" := hapart4.cwd.trans ((Workspace.cwd_place hplace).1.trans hcwd2)
  have hm : load w4 formatVersion "/p" = .ok (record { version := formatVersion } (oneFile "/p") "/p"
      "/p/m.py" ca x) := by
    have hmanifest := shelf_project.manifest
    rw [← hload1]
    apply load_congr
    rw [hapart4.same _ (hother _ hmanifest _), hfile3 _ hmanifest, if_neg hne.symm,
      hapart2.same _ (hother _ hmanifest _)]
  have hk : w4.file? ca = some (textOf (s :: (linesSoFar (records halfWritable)).1)) := by
    rw [hapart4.same _ (hother _ hca _), hfile3 _ hca, if_pos rfl]
  have hread : readLines formatVersion (textOf (s :: (linesSoFar (records halfWritable)).1))
      = .ok ((halfWritable.front 1).stored, image (headerOf "/p" "m.py").value) := by
    refine readLines_lines ?_ rfl (by decide) (by decide)
    rw [linesSoFar_lines hs, halfWritable_lines.2]
  have hm' : w4.file? "m.py" = some (.text "x = 1\n") := by
    rw [← hfile4]
    refine Workspace.file?_congr (by decide) (by decide) (Eq.trans ?_ (habs w4).symm)
    rw [Workspace.absolute, hcwd4]
    decide
  have hentry := recorded?_record { version := formatVersion } (oneFile "/p") w4 "/p" "/p/m.py" ca x "m.py"
  rw [if_pos (by rw [nameOf, nameOf, habs, Workspace.absolute, hcwd4]; decide)] at hentry
  have hproject : projectRoot w4 none = "/p" := by
    rw [projectRoot_congr (hcwd4.trans (show "/p" = (oneFile "/p").cwd from rfl))]
    decide
  have hhash : some x = ((oneFile "/p").file? "/p/m.py").map fun c => sha256Bytes c.toBytes := hx.symm
  rw [hfile] at hhash
  refine ⟨w4, _, _, _, image (headerOf "/p" "m.py").value, hhistory4, hcwd4, ?_, hm',
    ⟨?_, ?_, e, ?_⟩, ⟨?_, ?_, ?_⟩, Graph.value_stored _⟩
  · exact loadFile_eq_some.mpr ⟨_, _, _, ca, _, hproject ▸ hm, hproject ▸ hentry, hm',
      congrArg Value.text (Option.some.inj hhash), rfl, hk, hread⟩
  · rw [Attempt.path_of, hsource, habs]
  · rw [hsource]; exact hfile2
  · rfl
  · rw [Attempt.path_of, hsource, habs]
  · rw [hsource]; exact hfile
  · rfl

/-- The kind of the first node that a graph shows. -/
def firstKind (v : Value) : Option String := (v.listAt "nodes").head?.bind fun n => (n.sub "kind").text?

theorem firstKind_image : firstKind (image (halfWritable.front 1).value) = some "Assign"
    ∧ firstKind (image oneNode.value) = some "Module" := by
  decide

/-- After the edit was taken back, the last completed attempt is the first one, and what is found is the front of the
graph of the second. -/
theorem front_found_after_edits : ∃ (w : Workspace) (log : List Attempt) (g : Graph) (header : Value),
    History "/p" w log ∧ loadFile w "m.py" none = .ok (some (g, header))
    ∧ ∃ later b earlier c c', log = later ++ b :: earlier ∧ b.IsFor w "m.py" ∧ b.Completed c ∧ w.file? "m.py" = some c'
      ∧ c.toBytes = c'.toBytes ∧ (∀ a ∈ later, a.IsFor w "m.py" → ∀ c, ¬ a.Completed c)
      ∧ (∃ a ∈ later ++ [b], a.IsFor w "m.py" ∧ (∃ n, g.value = image (a.graph.front n).value)
        ∧ ∀ cache, a.answer = .ok cache → g.value = image a.graph.value)
      ∧ ((∀ a ∈ later, ¬ a.IsFor w "m.py") → g.value = image b.graph.value) := by
  obtain ⟨w, a, b, g, header, hhistory, hcwd, hload, hfile, ⟨ha, hheld, -⟩, ⟨hb, hheld', -⟩, -⟩ := edited_history
  have habs : w.absolute "m.py" = "/p/m.py" := by
    rw [Workspace.absolute, hcwd]
    decide
  have hroot : projectRoot w none = "/p" := by
    rw [projectRoot_congr (hcwd.trans (show "/p" = (oneFile "/p").cwd from rfl))]
    decide
  refine ⟨w, [a, b], g, header, hhistory, hload, found_after_history hhistory hroot hload ?_ ?_⟩
  · intro x hx _
    rw [habs, Attempt.name]
    rcases mem_pair.mp hx with rfl | rfl
    · rw [ha]
    · rw [hb]
  · intro x hx c c' hc hc' heq
    obtain rfl := Option.some.inj (hfile.symm.trans hc')
    rcases mem_pair.mp hx with rfl | rfl
    · obtain rfl := Option.some.inj (hheld.symm.trans hc)
      exact absurd heq (by decide +kernel)
    · obtain rfl := Option.some.inj (hheld'.symm.trans hc)
      rfl

/-- What is found need not be the graph of any attempt that was completed. -/
theorem unfinished_found : ∃ (w : Workspace) (log : List Attempt) (g : Graph) (header : Value), History "/p" w log
    ∧ loadFile w "m.py" none = .ok (some (g, header))
    ∧ ∀ a ∈ log, ∀ c, a.Completed c → g.value ≠ image a.graph.value := by
  obtain ⟨w, a, b, g, header, hhistory, -, hload, -, ⟨-, -, e, he⟩, ⟨-, -, hgraph⟩, hfront⟩ := edited_history
  refine ⟨w, [a, b], g, header, hhistory, hload, ?_⟩
  rintro x hx c ⟨-, cache, hanswer⟩ heq
  rcases mem_pair.mp hx with rfl | rfl
  · exact absurd (he.symm.trans hanswer) nofun
  · have hkind := congrArg firstKind (hfront.symm.trans heq)
    rw [hgraph, firstKind_image.1, firstKind_image.2] at hkind
    exact absurd hkind (by decide)

end SecScan.Store
