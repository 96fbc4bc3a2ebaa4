import SecScan.Proofs.Flow.Contents
import SecScan.Proofs.Flow.Nesting
import SecScan.Proofs.Taint.Tracing

/-!
What a tainted condition taints. Outside of loops the region that a test decides about holds every
block of its branches that can be reached, so all that is assigned there is tainted. In a loop each
branch leads to the other, the region is empty, and the test taints nothing (`branches_tainted`).
-/

namespace SecScan.Flow

open Syntax

variable {g : Graph} {b : SsaBlock}

/-! ## Nodes in their blocks -/

/-- If no node stands in two places, its block is the one that holds it. -/
theorem id_eq_of_mem (hnodes : g.contents.Nodup) {x : Block}
    (hx : x ∈ g.blocks) {i : Item} (hi : i ∈ x.items) {n : Nat} (hn : i ∈ g.itemsOf n) : x.id = n := by
  obtain ⟨y, hy, rfl, hiy⟩ := exists_block_of_mem_itemsOf hn
  rw [eq_of_mem_flatMap hnodes hx hy hi hiy]

/-- A renamed block holds the items of its block, and makes versions only if it can be reached. -/
theorem exists_of_mem_blocks (hg : g.WellFormed) (hb : b ∈ (Ssa.ofGraph g).blocks) :
    ∃ x ∈ g.blocks, x.id = b.id ∧ x.items = b.items.map (·.item) ∧
      ((∃ i ∈ b.items, i.writes ≠ []) → ∃ t, Trail g (b.id :: t)) := by
  obtain ⟨x, hx, hid, ⟨y, hy, hyid, hitems, -⟩ | ⟨-, -, hitems⟩⟩ := cases_ofGraph hb
  · obtain ⟨e, he⟩ := exists_from hg hy
    refine ⟨x, hx, hid, ?_, fun _ => hyid ▸ visit_path hg hy⟩
    rw [hitems, he.items_item, hyid, ← hid, itemsOf_of_mem hg hx]
  · refine ⟨x, hx, hid, by simp [hitems, Function.comp_def], ?_⟩
    rintro ⟨i, hi, hne⟩
    rw [hitems] at hi
    obtain ⟨j, -, rfl⟩ := List.mem_map.mp hi
    exact absurd rfl hne

theorem block?_of_mem (hg : g.WellFormed) (hb : b ∈ (Ssa.ofGraph g).blocks) : (Ssa.ofGraph g).block? b.id = some b :=
  find?_key_of_mem (ids_ofGraph g ▸ hg.nodup) hb

theorem ssa_id_eq_of_mem (hg : g.WellFormed) (hnodes : g.contents.Nodup)
    (hb : b ∈ (Ssa.ofGraph g).blocks) {i : RenamedItem} (hi : i ∈ b.items) {n : Nat}
    (hn : i.item ∈ g.itemsOf n) : b.id = n := by
  obtain ⟨x, hx, hid, hitems, -⟩ := exists_of_mem_blocks hg hb
  exact hid ▸ id_eq_of_mem hnodes hx (hitems ▸ List.mem_map_of_mem hi) hn

/-! ## Regions -/

theorem Reach.not_mem {stop : List Nat} {a b : Nat} (h : Reach g stop a b) : a ∉ stop := by
  induction h with
  | start hs => exact hs
  | step _ _ _ ih => exact ih

end SecScan.Flow

namespace SecScan.Taint

open Syntax SecScan.Flow

variable {g : Graph} {succs : List Nat} {n : Nat}

/-- Blocks that all of the given blocks lead to. -/
def joins (g : Graph) (succs : List Nat) : List Nat :=
  g.ids.filter fun b => (succs.map (g.reachFrom [])).all (·.contains b)

theorem mem_joins : n ∈ joins g succs ↔ n ∈ g.ids ∧ ∀ a ∈ succs, Reach g [] a n := by simp [joins, mem_reachFrom]

theorem mem_controlRegion : n ∈ controlRegion g succs ↔ n ∈ g.ids ∧ ∃ a ∈ succs, Reach g (joins g succs) a n := by
  rw [controlRegion, List.mem_filter]
  simp [joins, mem_reachFrom]

/-- What a join leads to is a join. -/
theorem mem_joins_of_successor (hg : ∀ e ∈ g.edges, e.target ∈ g.ids) {b c : Nat} (hb : b ∈ joins g succs)
    (hc : c ∈ g.successors b) : c ∈ joins g succs := by
  obtain ⟨e, he, -, rfl⟩ := mem_successors.mp hc
  exact mem_joins.mpr ⟨hg e he, fun a ha => ((mem_joins.mp hb).2 a ha).step hc (by simp)⟩

/-- A search that stops at the joins misses nothing else: a way to a block that is no join passes none. -/
theorem reach_outside_joins (hg : ∀ e ∈ g.edges, e.target ∈ g.ids) {a : Nat} :
    Reach g (joins g succs) a n ↔ Reach g [] a n ∧ n ∉ joins g succs := by
  constructor
  · intro h
    induction h with
    | start hs => exact ⟨.start (by simp), hs⟩
    | step _ hc hs ih => exact ⟨ih.1.step hc (by simp), hs⟩
  · rintro ⟨h, hn⟩
    induction h with
    | start _ => exact .start hn
    | step _ hc _ ih => exact (ih fun hb => hn (mem_joins_of_successor hg hb hc)).step hc hn

/-- The region of some blocks of a graph, with cycles or without, is what some of them lead to but not all. -/
theorem region_some_not_all (g : Graph) (hg : ∀ e ∈ g.edges, e.target ∈ g.ids) (succs : List Nat)
    (hsuccs : ∀ a ∈ succs, a ∈ g.ids) (n : Nat) :
    n ∈ controlRegion g succs ↔ (∃ a ∈ succs, Reach g [] a n) ∧ ¬ ∀ a ∈ succs, Reach g [] a n := by
  have hids : ∀ a ∈ succs, Reach g [] a n → n ∈ g.ids := fun a ha h => h.mem_ids hg (hsuccs a ha)
  simp only [mem_controlRegion, reach_outside_joins hg, mem_joins]
  constructor
  · rintro ⟨hn, a, ha, h, hjoin⟩
    exact ⟨⟨a, ha, h⟩, fun hall => hjoin ⟨hn, hall⟩⟩
  · rintro ⟨⟨a, ha, h⟩, hall⟩
    exact ⟨hids a ha h, a, ha, h, fun hjoin => hall hjoin.2⟩

/-- Two blocks lead to a circle of two, and one of them to itself. -/
def circle : Graph where
  name := "circle"
  entry := 0
  blocks := [⟨0, ⟨"circle", false⟩, []⟩, ⟨1, ⟨"circle", false⟩, []⟩,
    ⟨2, ⟨"circle", false⟩, []⟩, ⟨3, ⟨"circle", false⟩, []⟩]
  edges := [⟨0, 0, none⟩, ⟨0, 2, none⟩, ⟨1, 2, none⟩, ⟨2, 3, none⟩, ⟨3, 2, none⟩]

theorem region_circle : (∀ e ∈ circle.edges, e.target ∈ circle.ids) ∧ (∀ a ∈ [0, 1], a ∈ circle.ids) ∧
    controlRegion circle [0, 1] = [0, 1] ∧ ¬ Reach circle [] 1 0 := by
  have hedges : ∀ e ∈ circle.edges, e.target ∈ circle.ids := by decide
  have hsuccs : ∀ a ∈ [0, 1], a ∈ circle.ids := by decide
  refine ⟨hedges, hsuccs, by decide, fun h => ?_⟩
  have hall := (region_some_not_all circle hedges [0, 1] hsuccs 0).mp (by decide)
  exact hall.2 (by simpa using ⟨.start (by simp), h⟩)

/-- The region of a test holds the blocks of its branches that can be reached. -/
theorem mem_controlRegion_of_branch (hg : g.WellFormed) {test start other : Nat}
    {inside : Nat → Prop} (h : Branch g test start other inside)
    (hstart : start ∈ succs) (hother : other ∈ succs) {t : List Nat}
    (ht : Trail g (n :: t)) (hn : inside n) : n ∈ controlRegion g succs := by
  have hids := ht.reach.mem_ids hg.target_mem hg.entry_mem
  refine mem_controlRegion.mpr ⟨hids, start, hstart, h.reach (fun x hx hjoin => ?_) ht hn⟩
  exact h.apart x ((mem_joins.mp hjoin).2 other hother) hx

/-- Blocks that lead to each other decide about nothing. -/
theorem controlRegion_eq_nil (hids : ∀ a ∈ succs, a ∈ g.ids) (h : ∀ a ∈ succs, ∀ c ∈ succs, Reach g [] a c) :
    controlRegion g succs = [] := by
  refine List.eq_nil_iff_forall_not_mem.mpr fun n hn => ?_
  obtain ⟨-, a, ha, hreach⟩ := mem_controlRegion.mp hn
  exact hreach.not_mem (mem_joins.mpr ⟨hids a ha, fun c hc => h c hc a ha⟩)

theorem controlSuccessors_eq {b c d : Nat}
    (h : g.outEdges b = [⟨b, c, some .true⟩, ⟨b, d, some .false⟩]) : controlSuccessors g b = [c, d] := by
  rw [controlSuccessors, h]
  rfl

/-- The node loads a version that is tainted in the end. -/
def LoadsTaint (s : Ssa) (c : Config) (n : Item) : Prop :=
  ∃ b ∈ s.blocks, ∃ i ∈ b.items, i.item = n ∧ ∃ u ∈ i.loads, (marks s c).has u

section test

variable {b e whole : Builder} {loops : Bool} {l : Loc} {test : Expr} {thenPart elsePart : List Stmt} (h : e.Ready)
  (hpart : Builder.Part loops b whole e (e.stmt (.cond l test thenPart elsePart)))
include h hpart

theorem controlSuccessors_test :
    controlSuccessors whole.graph e.current = [e.count + 1, e.count + 2] := by
  have htested := h.tested l test thenPart elsePart
  exact controlSuccessors_eq ((hpart.keeps.outEdges _ (.inl rfl) htested.moved).trans htested.outEdges)

variable (hg : whole.graph.WellFormed)
include hg

/-- Outside of loops a test decides about all blocks of its branches that can be reached. -/
theorem exists_mem_region (houtside : loops = false) {s : Stmt} (hflat : isFlat s)
    (hs : Stands true s thenPart ∨ Stands true s elsePart) :
    ∃ n, .stmt s ∈ whole.graph.itemsOf n ∧ ∀ t, Trail whole.graph (n :: t) →
      n ∈ controlRegion whole.graph [e.count + 1, e.count + 2] := by
  have htested := h.tested l test thenPart elsePart
  obtain ⟨ps, hp, hf⟩ := hpart.frozen houtside whole.graph [] (by simp [Builder.Pending])
    ⟨fun _ _ hxy _ _ => hxy, by simp⟩
  have hentry : whole.graph.entry ≤ e.count := by
    rw [hpart.entry, (Builder.Ready.stmt _ h).entry]
    exact h.le _ h.graph.entry_mem
  rcases hs with hs | hs
  · obtain ⟨inside, n, hbranch, hn, hmem⟩ := htested.thenBranch _ ps hp hf hentry s hflat hs
    exact ⟨n, hpart.items n hmem, fun t ht => mem_controlRegion_of_branch hg hbranch (by simp) (by simp) ht hn⟩
  · obtain ⟨inside, n, hbranch, hn, hmem⟩ := htested.elseBranch _ ps hp hf hentry s hflat hs
    exact ⟨n, hpart.items n hmem, fun t ht => mem_controlRegion_of_branch hg hbranch (by simp) (by simp) ht hn⟩

/-- A test whose end leads back to it decides about nothing. -/
theorem region_eq_nil_of_round
    (hround : Reach whole.graph [] (e.stmt (.cond l test thenPart elsePart)).current e.current) :
    controlRegion whole.graph [e.count + 1, e.count + 2] = [] := by
  have htested := h.tested l test thenPart elsePart
  have hback : ∀ a ∈ [e.count + 1, e.count + 2], Reach whole.graph [] a e.current := by
    simp only [List.mem_cons, List.not_mem_nil, or_false]
    rintro a (rfl | rfl)
    · exact (htested.thenJoins.mono hpart.successors).trans hround
    · exact (htested.elseJoins.mono hpart.successors).trans hround
  have hleads : ∀ a ∈ [e.count + 1, e.count + 2], Reach whole.graph [] e.current a := fun a ha =>
    (reach_of_outEdges htested.outEdges (by simpa using ha)).mono hpart.successors
  refine controlRegion_eq_nil (fun a ha => ?_) fun a ha c hc => (hback a ha).trans (hleads c hc)
  refine hg.successor_mem (hpart.successors e.current ?_)
  rw [Graph.successors, htested.outEdges]
  simpa using ha

variable (hnodes : whole.graph.contents.Nodup) {d : SsaBlock} (hd : d ∈ (Ssa.ofGraph whole.graph).blocks)
  {j : RenamedItem} (hj : j ∈ d.items) (htest : j.item = .expr test)
include hnodes hd hj htest

theorem id_of_test : d.id = e.current := by
  refine ssa_id_eq_of_mem hg hnodes hd hj ?_
  rw [htest]
  exact hpart.items _ (h.tested l test thenPart elsePart).item

theorem hands_of_part (houtside : loops = false) {u : Version} (hu : u ∈ j.loads) {s : Stmt} (hflat : isFlat s)
    (hs : Stands true s thenPart ∨ Stands true s elsePart) {x : SsaBlock}
    (hx : x ∈ (Ssa.ofGraph whole.graph).blocks) {i : RenamedItem} (hi : i ∈ x.items)
    (hitem : i.item = .stmt s) {v : Version} (hv : v ∈ i.defines) (c : Config) :
    Hands (Ssa.ofGraph whole.graph) c u v := by
  obtain ⟨n, hplace, hregion⟩ := exists_mem_region h hpart hg houtside hflat hs
  have hn : x.id = n := ssa_id_eq_of_mem hg hnodes hx hi (hitem ▸ hplace)
  obtain ⟨-, -, -, -, hpath⟩ := exists_of_mem_blocks hg hx
  obtain ⟨t, ht⟩ := hpath ⟨i, hi, fun hnone => by simpa [hnone] using mem_writes_of_defines hv⟩
  have hsucc : controlSuccessors (Ssa.ofGraph whole.graph).graph d.id = [e.count + 1, e.count + 2] := by
    rw [id_of_test h hpart hg hnodes hd hj htest]
    exact controlSuccessors_test h hpart
  refine .control hd hj (htest ▸ rfl) (by simp [hsucc]) hu ⟨n, ?_, x, hn ▸ block?_of_mem hg hx, i, hi, hv⟩
  rw [hsucc]
  exact hregion t (hn ▸ ht)

theorem not_controls_of_round
    (hround : Reach whole.graph [] (e.stmt (.cond l test thenPart elsePart)).current e.current)
    (v : Version) : ¬ Controls (Ssa.ofGraph whole.graph) d.id v := by
  rintro ⟨n, hn, -⟩
  rw [id_of_test h hpart hg hnodes hd hj htest] at hn
  have hempty : n ∈ controlRegion whole.graph (controlSuccessors whole.graph e.current) := hn
  rw [controlSuccessors_test h hpart, region_eq_nil_of_round h hpart hg hround] at hempty
  simp at hempty

end test

/-- The versions that the branches of a test define are tainted if it loads a tainted version and
stands outside of loops. In a loop a test decides about no version. Nodes are told apart by what they
are, with their places in the source, so no two of them may be alike. -/
theorem branches_tainted (name : String) (m : Module) (c : Config)
    (hnodes : (nodesAll m.body).Nodup) (l : Loc) (test : Expr) (thenPart elsePart : List Stmt) :
    (Stands false (.cond l test thenPart elsePart) m.body →
      LoadsTaint (Ssa.ofGraph (Graph.build name (.module m))) c (.expr test) →
      ∀ s, isFlat s → Stands true s thenPart ∨ Stands true s elsePart →
      ∀ b ∈ (Ssa.ofGraph (Graph.build name (.module m))).blocks, ∀ i ∈ b.items, i.item = .stmt s →
      ∀ v ∈ i.defines, (marks (Ssa.ofGraph (Graph.build name (.module m))) c).has v) ∧
    (Looped (.cond l test thenPart elsePart) m.body →
      ∀ b ∈ (Ssa.ofGraph (Graph.build name (.module m))).blocks, ∀ i ∈ b.items, i.item = .expr test →
      ∀ v, ¬ Controls (Ssa.ofGraph (Graph.build name (.module m))) b.id v) := by
  have hg := build_wellFormed name (.module m)
  have hnodes := (contents_build name m).nodup_iff.mpr hnodes
  have hstart := Builder.ready_start 0 name (.module m)
  constructor
  · rintro hif ⟨d, hd, j, hj, htest, u, hu, htaint⟩ s hflat hs b hb i hi hitem v hv
    obtain ⟨e, h, hpart⟩ := hif.part hstart
    exact (marks_closed _ c).hands u v htaint
      (hands_of_part h hpart hg hnodes hd hj htest rfl hu hflat hs hb hi hitem hv c)
  · intro hloop b hb i hi hitem
    obtain ⟨e, h, hpart, hround⟩ := hloop.part hstart
    exact not_controls_of_round h hpart hg hnodes hb hi hitem hround

/-- The constant `1` is assigned. -/
def one (line col : Nat) (x : String) : Stmt :=
  .assign ⟨line, col, line, col + 5⟩ [letter line col x .store]
    (.constant ⟨line, col + 4, line, col + 5⟩ (.nat 1) none) none

/-- `if s: (while c: x = 1) else: y = 1` -/
def guarded : Stmt :=
  .cond ⟨2, 0, 6, 9⟩ (letter 2 3 "s" .load)
    [.whileLoop ⟨3, 4, 4, 13⟩ (letter 3 10 "c" .load) [one 4 8 "x"] []] [one 6 4 "y"]

/-- `s = input()`, then a test of `s`. -/
def guarding : Module where
  body := [.assign ⟨1, 0, 1, 11⟩ [letter 1 0 "s" .store] (inputCall 1 4) none, guarded]

/-- Both branches of the test are tainted, also in the loop. -/
theorem guarding_tainted : (nodesAll guarding.body).Nodup ∧
    (marks (Ssa.ofGraph (Graph.build "m" (.module guarding))) inputToEval).has (.made "x" 2) ∧
    (marks (Ssa.ofGraph (Graph.build "m" (.module guarding))) inputToEval).has (.made "y" 1) := by
  have hitems : nodesAll guarding.body = [.stmt (.assign ⟨1, 0, 1, 11⟩ [letter 1 0 "s" .store] (inputCall 1 4) none),
        .expr (letter 2 3 "s" .load), .expr (letter 3 10 "c" .load), .stmt (one 4 8 "x"),
        .stmt (one 6 4 "y")] := rfl
  have hlocs : ((nodesAll guarding.body).map fun i => i.node.loc?).Nodup := by decide
  have hnodes := List.Nodup.of_map _ hlocs
  let s := Ssa.ofGraph (Graph.build "m" (.module guarding))
  -- the node at a place is the one that the program has there
  have hat (n : Item) (hn : n ∈ nodesAll guarding.body) (P : RenamedItem → Prop)
      (h : ∃ d ∈ s.blocks, ∃ j ∈ d.items, j.item.node.loc? = n.node.loc? ∧ P j) :
      ∃ d ∈ s.blocks, ∃ j ∈ d.items, j.item = n ∧ P j := by
    obtain ⟨d, hd, j, hj, hloc, hP⟩ := h
    obtain ⟨x, hx, -, hitems, -⟩ := exists_of_mem_blocks (build_wellFormed _ _) hd
    have hmem : j.item ∈ (Graph.build "m" (.module guarding)).contents :=
      List.mem_flatMap.mpr ⟨x, hx, hitems ▸ List.mem_map_of_mem hj⟩
    exact ⟨d, hd, j, hj, List.inj_on_of_nodup_map hlocs ((contents_build _ _).mem_iff.mp hmem) hn hloc, hP⟩
  have htest : LoadsTaint s inputToEval (.expr (letter 2 3 "s" .load)) :=
    hat _ (by simp [hitems]) (fun j => ∃ u ∈ j.loads, (marks s inputToEval).has u) (by decide)
  have htainted := (branches_tainted "m" guarding inputToEval hnodes _ _ _ _).1 (.later .here) htest
  obtain ⟨b, hb, i, hi, hxi, hx⟩ := hat (.stmt (one 4 8 "x")) (by simp [hitems]) (.made "x" 2 ∈ ·.defines) (by decide)
  obtain ⟨d, hd, j, hj, hyj, hy⟩ := hat (.stmt (one 6 4 "y")) (by simp [hitems]) (.made "y" 1 ∈ ·.defines) (by decide)
  refine ⟨hnodes, ?_, ?_⟩
  · exact htainted (one 4 8 "x") rfl (.inl (.whileLoop rfl .here)) b hb i hi hxi _ hx
  · exact htainted (one 6 4 "y") rfl (.inr .here) d hd j hj hyj _ hy

/-- `s = input(); while c: if s: x = 1; eval(x)` -/
def repeating : Module where
  body := [ .assign ⟨1, 0, 1, 11⟩ [letter 1 0 "s" .store] (inputCall 1 4) none,
    .whileLoop ⟨2, 0, 5, 15⟩ (letter 2 6 "c" .load)
      [.cond ⟨3, 4, 5, 15⟩ (letter 3 7 "s" .load) [one 4 8 "x", evalCall 5 8 "x"] []] []]

/-- In a loop the test loads a tainted version, and what it guards is not tainted. -/
theorem repeating_untainted : (∃ b ∈ (Ssa.ofGraph (Graph.build "m" (.module repeating))).blocks, ∃ i ∈ b.items,
      i.item.node.loc? = some ⟨3, 7, 3, 8⟩ ∧ ∃ u ∈ i.loads,
        (marks (Ssa.ofGraph (Graph.build "m" (.module repeating))) inputToEval).has u) ∧
    (∃ b ∈ (Ssa.ofGraph (Graph.build "m" (.module repeating))).blocks, ∃ i ∈ b.items,
      i.item.node.loc? = some ⟨4, 8, 4, 13⟩ ∧ ∃ v ∈ i.defines,
        (marks (Ssa.ofGraph (Graph.build "m" (.module repeating))) inputToEval).has v = false) ∧
    analyze (Graph.build "m" (.module repeating)) inputToEval = [] := by
  decide

end SecScan.Taint
