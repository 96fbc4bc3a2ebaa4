import SecScan.Proofs.Taint.Tracing

/-!
Explicit flows along control-flow paths. A variable carries tainted data from a source call on, as
long as nothing rebinds it, and hands it to what an assignment binds that loads it (`Carries`). The
version that holds where a variable carries tainted data is tainted (`Carries.held`), so a sink that
loads such a variable is reported (`explicit_flow_reported`). What a loop or a context manager binds
is never tainted, nor is a source recognised in an annotated assignment, nor does an augmented
assignment load its own target (`unhandled_bindings`).
-/

namespace SecScan.Flow

open Syntax Node List Holding

variable {x : String} {t : List Nat}
variable {i : Item}

/-! ## Statements -/

namespace Item

/-- Assigns the result of a call of one of the sources. -/
def BindsSource (c : Taint.Config) (i : Item) : Prop :=
  ∃ l ts v t f, i = .stmt (.assign l ts v t) ∧ v.callName? = some f ∧ f ∈ c.sources

/-- Plain, annotated and augmented assignments. -/
def Assigns : Item → Prop
  | .stmt (.assign ..) | .stmt (.annAssign ..) | .stmt (.augAssign ..) => True
  | _ => False

/-- Loads the variable where names are read. -/
def Loads (i : Item) (x : String) : Prop := ∃ l, ⟨l, x, .load⟩ ∈ i.reads

/-- Makes a version of the variable. -/
def Rebinds (i : Item) (x : String) : Prop := x ∈ i.binds.map (·.name)

instance (i : Item) (x : String) : Decidable (i.Rebinds x) := inferInstanceAs (Decidable (x ∈ i.binds.map (·.name)))

theorem BindsSource.source? {c : Taint.Config} (h : i.BindsSource c) : (i.source? c).isSome ∧ i.Assigns := by
  obtain ⟨l, ts, v, t, f, rfl, hf, hmem⟩ := h
  simp [Item.source?, callAmong, hf, hmem, Assigns]

theorem Assigns.recorded (h : i.Assigns) (hx : i.Rebinds x) : x ∈ i.recorded := by
  unfold Assigns at h
  split at h
  · exact hx
  · exact hx
  · exact hx
  · exact h.elim

end Item

theorem RenamedItem.defines_of_assigns {i : RenamedItem} (h : i.item.Assigns) : i.defines = i.writes.map (·.2) := by
  unfold Item.Assigns at h
  unfold RenamedItem.defines
  split at h <;> simp_all

theorem Holding.after_succ (e : Holding) {is : List RenamedItem} {k : Nat} {i : RenamedItem}
    (hi : is[k]? = some i) : e.after (is.take (k + 1)) = (e.after (is.take k)).setAll i.bound := by
  rw [take_add_one, hi, after, after, flatMap_append, setAll_append]
  simp

theorem records_of_assigns {g : Graph} {b k : Nat}
    (hi : (g.itemsOf b)[k]? = some i) (ha : i.Assigns) (hx : i.Rebinds x) : Records g x b :=
  records_of_mem (mem_of_getElem? hi) (ha.recorded hx)

/-! ## Where a version comes from -/

/-- On the way down the dominator tree from `d` to the point nothing makes a version of the variable,
and what does so in `d` has phis placed for it. -/
structure Settled (g : Graph) (x : String) (d b k : Nat) : Prop where
  dominates : Dominates g d b
  recorded : Records g x d ∨ HasPhi g x d
  above : ∀ u, Dominates g u b → u ≠ b → ¬ Dominates g u d → ¬ HasPhi g x u ∧ ¬ Binds g x u
  here : d ≠ b → ¬ HasPhi g x b ∧ ∀ i ∈ (g.itemsOf b).take k, ¬ i.Rebinds x

namespace Settled

variable {g : Graph} {x : String} {b d k : Nat}

theorem self (ht : Trail g (b :: t)) (h : Records g x b ∨ HasPhi g x b) : Settled g x b b k :=
  ⟨.refl ht, h, fun _ hu _ hno => absurd hu hno, fun hne => absurd rfl hne⟩

theorem keep (h : Settled g x d b k) (hi : (g.itemsOf b)[k]? = some i)
    (hx : ¬ i.Rebinds x) : Settled g x d b (k + 1) := by
  refine ⟨h.dominates, h.recorded, h.above, fun hne => ⟨(h.here hne).1, fun j hj => ?_⟩⟩
  rw [take_add_one, hi] at hj
  rcases mem_append.mp hj with hj | hj
  · exact (h.here hne).2 j hj
  · obtain rfl : j = i := by simpa using hj
    exact hx

/-- At the end of the block nothing below `d` has made a version. -/
theorem below (h : Settled g x d b (g.itemsOf b).length) {u : Nat} (hu : Dominates g u b)
    (hno : ¬ Dominates g u d) : ¬ HasPhi g x u ∧ ¬ Binds g x u := by
  by_cases hub : u = b
  · subst hub
    have hne : d ≠ u := fun heq => hno (heq ▸ hu)
    obtain ⟨hphi, hitems⟩ := h.here hne
    rw [take_length] at hitems
    exact ⟨hphi, fun ⟨i, hi, hx⟩ => hitems i hi hx⟩
  · exact h.above u hu hub hno

/-- Without a phi for the variable, the successor is strictly below `d`. -/
theorem edge (hg : g.WellFormed) (h : Settled g x d b (g.itemsOf b).length)
    (ht : Trail g (b :: t)) {c : Nat} (hc : c ∈ g.successors b) (hphi : ¬ HasPhi g x c) :
    d ≠ c ∧ Settled g x d c 0 := by
  have hstrict : Dominates g d c ∧ d ≠ c := by
    by_contra hno
    exact hphi (hasPhi_of_frontier hg h.recorded ⟨b, h.dominates, hc, hno⟩)
  refine ⟨hstrict.2, hstrict.1, h.recorded, fun u hu hne hno => ?_, fun _ => ⟨hphi, by simp⟩⟩
  exact h.below (hu.of_edge hne ht hc) hno

end Settled

end SecScan.Flow

namespace SecScan.Taint

open Syntax SecScan.Flow Node Holding

variable {b : Nat} {v : Version}
variable {g : Graph} {k : Nat} {y : Visit} {x : String} {e : Latest} {c : Config}
  {j : RenamedItem}

/-! ## Carrying tainted data -/

/-- On some path from the entry to the point before an item, the variable got tainted data from a
source call, by way of assignments that load what carries them. -/
inductive Carries (g : Graph) (c : Config) : String → Nat → Nat → Prop where
  | source {x : String} {b k : Nat} {t : List Nat} {i : Item} : Trail g (b :: t) →
      (g.itemsOf b)[k]? = some i → i.BindsSource c → i.Rebinds x → Carries g c x b (k + 1)
  | link {x y : String} {b k : Nat} {i : Item} : Carries g c x b k → (g.itemsOf b)[k]? = some i →
      i.Assigns → i.Loads x → i.sanitizes c = false → i.Rebinds y → Carries g c y b (k + 1)
  | keep {x : String} {b k : Nat} {i : Item} : Carries g c x b k → (g.itemsOf b)[k]? = some i →
      ¬ i.Rebinds x → Carries g c x b (k + 1)
  | edge {x : String} {b d : Nat} : Carries g c x b (g.itemsOf b).length → d ∈ g.successors b → Carries g c x d 0

/-- The versions between the items of a visited block. -/
def between (y : Visit) (e : Latest) (k : Nat) : Holding := (e.holding.setAll y.phis).after (y.items.take k)

/-- The version of the variable that holds at the point is tainted. -/
def Held (g : Graph) (c : Config) (x : String) (b k : Nat) : Prop :=
  ∃ y ∈ g.visits, y.block = b ∧ ∃ e, y.From g e ∧
    (∃ w, between y e k x = some w ∧ Explicit (Ssa.ofGraph g) c w) ∧ ∃ d, Settled g x d b k

theorem exists_renamed (he : y.From g e) {i : Item}
    (hi : (g.itemsOf y.block)[k]? = some i) : ∃ j, y.items[k]? = some j ∧ j.item = i := by
  rw [← he.items_item, List.getElem?_map] at hi
  exact Option.map_eq_some_iff.mp hi

section

variable (he : y.From g e) (hj : y.items[k]? = some j)
include he hj

theorem mem_loads {w : Version} (hw : between y e k x = some w) (hx : j.item.Loads x) : w ∈ j.loads := by
  obtain ⟨l, hl⟩ := hx
  have hread : (⟨l, x, .load⟩, w) ∈ j.reads := by
    rw [(he.item hj).2]
    refine List.mem_map.mpr ⟨_, hl, ?_⟩
    have hhere : (between y e k).read x = w := by simp [Holding.read, hw]
    rw [← hhere]
    rfl
  exact List.mem_map.mpr ⟨_, List.mem_filter.mpr ⟨hread, by simp⟩, rfl⟩

/-- What an item binds holds after it. -/
theorem between_succ_of_rebinds (hx : j.item.Rebinds x) : ∃ w ∈ j.writes.map (·.2), between y e (k + 1) x = some w := by
  rw [Item.Rebinds, ← he.bound_names hj] at hx
  obtain ⟨w, hw, heq⟩ := setAll_mem hx
  obtain ⟨o, ho, hpair⟩ := List.mem_map.mp hw
  refine ⟨w, List.mem_map.mpr ⟨o, ho, (Prod.mk.inj hpair).2⟩, ?_⟩
  rw [between, after_succ _ hj]
  exact heq

theorem between_succ_of_not_rebinds (hx : ¬ j.item.Rebinds x) : between y e (k + 1) x = between y e k x := by
  rw [between, after_succ _ hj]
  exact setAll_of_not_mem (he.bound_names hj ▸ hx)

end

theorem exists_block (hg : g.WellFormed) (hy : y ∈ g.visits) : ∃ s ∈ (Ssa.ofGraph g).blocks, s.items = y.items := by
  obtain ⟨s, hs, -, hitems, -⟩ := block?_ofGraph hg hy
  exact ⟨s, List.mem_of_find?_eq_some hs, hitems⟩

/-- Tainted data comes over an edge as it is, or a phi takes it on. -/
theorem Held.edge (hg : g.WellFormed) (hentry : g.predecessors g.entry = [])
    {d : Nat} (h : Held g c x b (g.itemsOf b).length)
    (hd : d ∈ g.successors b) : Held g c x d 0 := by
  obtain ⟨y, hy, rfl, e, he, ⟨w, hw, hexp⟩, a, ha⟩ := h
  obtain ⟨t, ht⟩ := visit_path hg hy
  obtain ⟨z, hz, rfl⟩ := exists_visit hg (ht.step hd)
  have hfinal : y.final.holding x = some w := by
    have hlen : (g.itemsOf y.block).length = y.items.length := by rw [← he.items_item, List.length_map]
    rw [he.final, ← hw, between, hlen, List.take_length]
  obtain ⟨u, hu⟩ := exists_immediateDominator (ht.step hd) (ne_entry_of_edge hentry hd)
  obtain ⟨v, hv, rfl, hz'⟩ := visit_idom hg hz hu
  refine ⟨z, hz, rfl, v.final, hz', ?_⟩
  have hstart : between z v.final 0 x = v.final.holding.setAll z.phis x := by
    simp [between, after, setAll]
  by_cases hphi : HasPhi g x z.block
  · refine ⟨?_, z.block, .self (ht.step hd) (.inr hphi)⟩
    obtain ⟨w', hmem, heq⟩ := @setAll_mem v.final.holding z.phis x (hz'.vars ▸ hphi)
    refine ⟨w', hstart.trans heq, ?_⟩
    obtain ⟨s, hs, -, -, hphis⟩ := block?_ofGraph hg hz
    have hf := hphis ▸ List.mem_map_of_mem hmem
    refine hexp.phi (List.mem_of_find?_eq_some hs) hf (List.mem_map.mpr ⟨(y.block, w), ?_, rfl⟩)
    exact (mem_operands hg hy hd).mpr (by simp [Holding.read, hfinal])
  · obtain ⟨hne, hsettled⟩ := ha.edge hg ht hd hphi
    have hidom := hu.last a hsettled.dominates hne
    refine ⟨⟨w, ?_, hexp⟩, a, hsettled⟩
    rw [hstart, setAll_of_not_mem (hz'.vars ▸ hphi), ← hfinal]
    refine (finalAt_eq_of_unbound hg hy hv (hu.dominates.of_edge hu.ne ht hd) ?_).symm
    exact fun q hq hno => ha.below hq fun h => hno (h.trans hidom)

/-- What an assignment binds is held after it, if its versions are tainted. -/
theorem Held.of_assigns (hg : g.WellFormed) (hy : y ∈ g.visits)
    (he : y.From g e) (hj : y.items[k]? = some j) (ha : j.item.Assigns) (hx : j.item.Rebinds x)
    (hexp : ∀ w ∈ j.defines, Explicit (Ssa.ofGraph g) c w) : Held g c x y.block (k + 1) := by
  obtain ⟨t, ht⟩ := visit_path hg hy
  obtain ⟨w, hw, hheld⟩ := between_succ_of_rebinds he hj hx
  have hi : (g.itemsOf y.block)[k]? = some j.item := by rw [← he.items_item, List.getElem?_map, hj, Option.map_some]
  refine ⟨y, hy, rfl, e, he, ⟨w, hheld, hexp w ?_⟩, y.block, .self ht (.inl (records_of_assigns hi ha hx))⟩
  rw [RenamedItem.defines_of_assigns ha]
  exact hw

/-- Where a variable carries tainted data, its version is tainted. -/
theorem Carries.held (hg : g.WellFormed) (hentry : g.predecessors g.entry = []) (h : Carries g c x b k) :
    Held g c x b k := by
  induction h with
  | @source x b k t i ht hi hsource hx =>
    obtain ⟨y, hy, rfl⟩ := exists_visit hg ht
    obtain ⟨e, he⟩ := exists_from hg hy
    obtain ⟨j, hj, rfl⟩ := exists_renamed he hi
    obtain ⟨hname, ha⟩ := hsource.source?
    obtain ⟨s, hs, hitems⟩ := exists_block hg hy
    refine .of_assigns hg hy he hj ha hx fun w hw => .source ⟨s, hs, j, ?_, hname, hw⟩
    exact hitems ▸ List.mem_of_getElem? hj
  | @link x z b k i _ hi ha hload hclean hz ih =>
    obtain ⟨y, hy, rfl, e, he, ⟨w, hw, hexp⟩, -⟩ := ih
    obtain ⟨j, hj, rfl⟩ := exists_renamed he hi
    obtain ⟨s, hs, hitems⟩ := exists_block hg hy
    refine .of_assigns hg hy he hj ha hz fun w' hw' => ?_
    exact hexp.assign hs (hitems ▸ List.mem_of_getElem? hj) hclean (mem_loads he hj hw hload) hw'
  | @keep x b k i _ hi hx ih =>
    obtain ⟨y, hy, rfl, e, he, ⟨w, hw, hexp⟩, d, hd⟩ := ih
    obtain ⟨j, hj, rfl⟩ := exists_renamed he hi
    exact ⟨y, hy, rfl, e, he, ⟨w, (between_succ_of_not_rebinds he hj hx).trans hw, hexp⟩, d, hd.keep hi hx⟩
  | edge _ hd ih => exact ih.edge hg hentry hd

/-- A sink that loads a variable which carries tainted data is reported. -/
theorem Carries.reported (hg : g.WellFormed) (hentry : g.predecessors g.entry = []) {i : Item} {sink : String}
    (h : Carries g c x b k) (hi : (g.itemsOf b)[k]? = some i) (hsink : i.sink? c = some sink) (hx : i.Loads x) :
    ∃ f ∈ analyze g c, f.sink = sink ∧ f.span = i.node.loc?.map Span.ofLoc := by
  obtain ⟨y, hy, rfl, e, he, ⟨w, hw, hexp⟩, -⟩ := h.held hg hentry
  obtain ⟨j, hj, rfl⟩ := exists_renamed he hi
  obtain ⟨s, hs, hitems⟩ := exists_block hg hy
  have hj' : j ∈ s.items := hitems ▸ List.mem_of_getElem? hj
  obtain ⟨r, hr⟩ := (mem_reports hsink).mpr ⟨w, mem_loads he hj hw hx, hexp.traced (nodup_versions hg)⟩
  exact ⟨r.flow, reports_analyzed hs hj' hr, reports_sink hsink hr⟩

/-- Only phis and statements make versions that are marked. -/
theorem exists_makes_of_has {s : Ssa} (h : (marks s c).has v) :
    ∃ d, Makes s v d ∧ ∀ i, d = .item i → v ∈ i.defines := by
  have hitem : ∀ {b : SsaBlock} {i : RenamedItem} {v : Version}, b ∈ s.blocks → i ∈ b.items →
      v ∈ i.defines → ∃ d, Makes s v d ∧ ∀ i, d = .item i → v ∈ i.defines :=
    fun hb hi hv => ⟨_, .item hb hi (mem_writes_of_defines hv), fun _ hj => Definition.item.inj hj ▸ hv⟩
  refine marks_subset (T := fun v => ∃ d, Makes s v d ∧ ∀ i, d = .item i → v ∈ i.defines) ⟨?_, ?_⟩ h
  · rintro v ⟨b, hb, i, hi, -, hv⟩
    exact hitem hb hi hv
  · rintro u v - hv
    cases hv with
    | assign hb hi _ _ hv => exact hitem hb hi hv
    | phi hb hf _ => exact ⟨_, .phi hb hf rfl, by simp⟩
    | control _ _ _ _ _ hv =>
      obtain ⟨_, -, b, hb, i, hi, hv⟩ := hv
      exact hitem (List.mem_of_find?_eq_some hb) hi hv

/-- What a loop, a context manager or a parameter binds is not marked. -/
theorem not_has_of_not_stmt {s : Ssa} (hs : s.versions.Nodup) {b : SsaBlock} {i : RenamedItem} (hb : b ∈ s.blocks)
    (hi : i ∈ b.items) (hstmt : i.item.isStmt = false) (hv : v ∈ i.writes.map (·.2)) : (marks s c).has v = false := by
  by_contra hmark
  obtain ⟨d, hd, hdefines⟩ := exists_makes_of_has (eq_true_of_ne_false hmark)
  have hmem := hdefines i (hd.unique hs (.item hb hi hv))
  unfold RenamedItem.defines at hmem
  cases hitem : i.item with
  | stmt _ => simp [hitem, Item.isStmt] at hstmt
  | expr _ => simp [hitem] at hmem
  | arg _ => simp [hitem] at hmem

/-- Tainted data that assignments bring to a sink is reported; what a loop, a context manager or a
parameter binds is never tainted. -/
theorem explicit_flow_reported (name : String) (root : Node) (c : Config) :
    (∀ x b k i sink, Carries (Graph.build name root) c x b k →
      ((Graph.build name root).itemsOf b)[k]? = some i → i.sink? c = some sink → i.Loads x →
      ∃ f ∈ analyze (Graph.build name root) c, f.sink = sink ∧ f.span = i.node.loc?.map Span.ofLoc) ∧
    ∀ b ∈ (Ssa.ofGraph (Graph.build name root)).blocks, ∀ i ∈ b.items, i.item.isStmt = false →
      ∀ v ∈ i.writes.map (·.2), (marks (Ssa.ofGraph (Graph.build name root)) c).has v = false := by
  have hg := build_wellFormed name root
  constructor
  · intro x b k i sink h hi hsink hx
    exact h.reported hg (build_entry name root) hi hsink hx
  · intro b hb i hi hstmt v hv
    exact not_has_of_not_stmt (nodup_versions hg) hb hi hstmt hv

/-- `x = input(); for i in r: x = x + i; eval(x)` -/
def appending : Module where
  body := [ .assign ⟨1, 0, 1, 11⟩ [letter 1 0 "x" .store] (inputCall 1 4) none,
    .forLoop ⟨2, 0, 3, 13⟩ false (letter 2 4 "i" .store) (letter 2 9 "r" .load)
      [.assign ⟨3, 4, 3, 13⟩ [letter 3 4 "x" .store]
        (.binOp ⟨3, 8, 3, 13⟩ (letter 3 8 "x" .load) .add (letter 3 12 "i" .load)) none] [] none,
    evalCall 4 0 "x"]

/-- Tainted data goes once around the loop. -/
theorem appending_reported : Carries (Graph.build "m" (.module appending)) inputToEval "x" 4 0 ∧
    ∃ f ∈ analyze (Graph.build "m" (.module appending)) inputToEval, f.sink = "eval" ∧ f.span = some ⟨4, 0, 4, 7⟩ := by
  have hsource : Carries (Graph.build "m" (.module appending)) inputToEval "x" 1 1 :=
    .source .start rfl ⟨_, _, _, _, "input", rfl, rfl, by decide⟩ (by decide)
  have hheader : ∀ d ∈ (Graph.build "m" (.module appending)).successors 2,
      Carries (Graph.build "m" (.module appending)) inputToEval "x" 2 0 →
      Carries (Graph.build "m" (.module appending)) inputToEval "x" d 0 := fun d hd h =>
    .edge ((h.keep rfl (by decide)).keep rfl (by decide)) hd
  have hbody := hheader 3 (by decide) (hsource.edge (by decide))
  have hsum : Carries (Graph.build "m" (.module appending)) inputToEval "x" 3 1 :=
    hbody.link rfl trivial ⟨⟨3, 8, 3, 9⟩, by decide⟩ rfl (by decide)
  have hcarries := hheader 4 (by decide) (hsum.edge (by decide))
  exact ⟨hcarries, (explicit_flow_reported "m" (.module appending) inputToEval).1 "x" 4 0 _ "eval"
    hcarries rfl rfl ⟨⟨4, 5, 4, 6⟩, by decide⟩⟩

/-- `x: t = input(); eval(x)` -/
def annotating : Module where
  body := [ .annAssign ⟨1, 0, 1, 14⟩ (letter 1 0 "x" .store) (letter 1 3 "t" .load) (some (inputCall 1 7)) true,
    evalCall 2 0 "x"]

/-- `x = input(); x += 1; eval(x)` -/
def augmenting : Module where
  body := [ .assign ⟨1, 0, 1, 11⟩ [letter 1 0 "x" .store] (inputCall 1 4) none,
    .augAssign ⟨2, 0, 2, 6⟩ (letter 2 0 "x" .store) .add (.constant ⟨2, 5, 2, 6⟩ (.nat 1) none),
    evalCall 3 0 "x"]

/-- `r = input(); for x in r: eval(x)` -/
def iterating : Module where
  body := [ .assign ⟨1, 0, 1, 11⟩ [letter 1 0 "r" .store] (inputCall 1 4) none,
    .forLoop ⟨2, 0, 3, 11⟩ false (letter 2 4 "x" .store) (letter 2 9 "r" .load) [evalCall 3 4 "x"] [] none]

/-- `r = input(); with r as x: eval(x)` -/
def managing : Module where
  body := [ .assign ⟨1, 0, 1, 11⟩ [letter 1 0 "r" .store] (inputCall 1 4) none,
    .withBlock ⟨2, 0, 3, 11⟩ false [⟨letter 2 5 "r" .load, some (letter 2 10 "x" .store)⟩] [evalCall 3 4 "x"] none]

/-- Neither an annotated source, nor the old value of an augmented assignment, nor what a loop or a
context manager binds reaches the sink. -/
theorem unhandled_bindings : analyze (Graph.build "m" (.module annotating)) inputToEval = [] ∧
    analyze (Graph.build "m" (.module augmenting)) inputToEval = [] ∧
    analyze (Graph.build "m" (.module iterating)) inputToEval = [] ∧
    analyze (Graph.build "m" (.module managing)) inputToEval = [] := by
  decide

end SecScan.Taint
