import SecScan.Flow.Ssa
import SecScan.Proofs.Flow.Dominators
import SecScan.Proofs.Keyed

/-!
Where phis are placed. A block gets a phi for a variable if it lies on the frontier of a block that is
recorded as binding the variable or has such a phi itself (`hasPhi_of_frontier`). Every assignment and
parameter is recorded (`records_iff`).
-/

namespace SecScan.Flow

open List Dominance SecScan.Flow.Graph

variable {g : Graph} {b : Nat} {v : String}

/-! ## The worklist -/

theorem length_unseen_append {xs new seen : List Nat} (hnew : new.Nodup) (hmem : ∀ x ∈ new, x ∈ xs ∧ x ∉ seen) :
    new.length + (unseen xs (seen ++ new)).length ≤ (unseen xs seen).length := by
  have hcomm : (unseen xs (seen ++ new)).length ≤ (unseen xs (new ++ seen)).length :=
    length_unseen_le (by intro x; simp only [mem_append]; exact Or.symm)
  suffices new.length + (unseen xs (new ++ seen)).length ≤ (unseen xs seen).length by omega
  clear hcomm
  induction new with
  | nil => simp
  | cons x new ih =>
    obtain ⟨hx, hnew⟩ := nodup_cons.mp hnew
    obtain ⟨hxs, hseen⟩ := hmem x mem_cons_self
    have hlen := ih hnew fun y hy => hmem y (mem_cons_of_mem _ hy)
    have hlt : (unseen xs (x :: (new ++ seen))).length < (unseen xs (new ++ seen)).length :=
      length_unseen_cons_lt hxs (by simp [hx, hseen])
    simp only [length_cons, cons_append]
    omega

section placePhis

variable {frontier : Nat → List Nat}

/-- Each block costs a unit of fuel, once when it is put on the worklist and not again: blocks that
were never on it are what `unseen` counts. -/
theorem placePhis_closed {ids : List Nat} (hfrontier : ∀ b, (frontier b).Nodup ∧ ∀ c ∈ frontier b, c ∈ ids)
    (fuel : Nat) (work defs phis : List Nat)
    (hfuel : work.length + (unseen ids defs).length ≤ fuel) :
    phis ⊆ placePhis frontier fuel work defs phis ∧
    (∀ b ∈ work, frontier b ⊆ placePhis frontier fuel work defs phis) ∧
    (∀ b ∈ placePhis frontier fuel work defs phis,
      b ∈ defs ∨ b ∈ phis ∨ frontier b ⊆ placePhis frontier fuel work defs phis) ∧
    ∀ more, placePhis frontier (fuel + more) work defs phis = placePhis frontier fuel work defs phis := by
  induction fuel generalizing work defs phis with
  | zero =>
    obtain rfl : work = [] := eq_nil_of_length_eq_zero (by omega)
    exact ⟨Subset.refl _, by simp, fun b hb => .inr (.inl hb), fun more => by cases more <;> rfl⟩
  | succ fuel ih =>
    cases work with
    | nil =>
      exact ⟨Subset.refl _, by simp, fun b hb => .inr (.inl hb), fun more => by rw [Nat.add_right_comm]; rfl⟩
    | cons a work =>
      let new := (frontier a).filter fun u => !phis.contains u
      let added := new.filter fun u => !defs.contains u
      have hnodup : added.Nodup := ((hfrontier a).1.filter _).filter _
      have hadded : ∀ x ∈ added, x ∈ ids ∧ x ∉ defs := by
        intro x hx
        obtain ⟨hnew, hdefs⟩ := mem_filter.mp hx
        exact ⟨(hfrontier a).2 x (mem_filter.mp hnew).1, by simpa using hdefs⟩
      have hlen : (work ++ added).length + (unseen ids (defs ++ added)).length ≤ fuel := by
        have := length_unseen_append hnodup hadded
        simp only [length_cons, length_append] at hfuel ⊢
        omega
      obtain ⟨hphis, hwork, hall, hmore⟩ := ih (work ++ added) (defs ++ added) (phis ++ new) hlen
      have heq : placePhis frontier (fuel + 1) (a :: work) defs phis =
          placePhis frontier fuel (work ++ added) (defs ++ added) (phis ++ new) := rfl
      rw [heq]
      refine ⟨fun x hx => hphis (mem_append_left _ hx), fun b hb c hc => ?_, fun b hb => ?_, fun more => ?_⟩
      · rcases mem_cons.mp hb with rfl | hb
        · by_cases hold : c ∈ phis
          · exact hphis (mem_append_left _ hold)
          · exact hphis (mem_append_right _ (mem_filter.mpr ⟨hc, by simpa using hold⟩))
        · exact hwork b (mem_append_left _ hb) hc
      · rcases hall b hb with h | h | h
        · rcases mem_append.mp h with h | h
          · exact .inl h
          · exact .inr (.inr (hwork b (mem_append_right _ h)))
        · rcases mem_append.mp h with h | h
          · exact .inr (.inl h)
          · by_cases hdefs : b ∈ defs
            · exact .inl hdefs
            · exact .inr (.inr (hwork b (mem_append_right _ (mem_filter.mpr ⟨h, by simpa using hdefs⟩))))
        · exact .inr (.inr h)
      · rw [Nat.add_right_comm]
        exact hmore more

/-- Only frontiers of the blocks at the start, and of those that are placed, are placed. -/
theorem placePhis_sound {P Q : Nat → Prop} (hP : ∀ u c, Q u ∨ P u → c ∈ frontier u → P c) (fuel : Nat)
    (work defs phis : List Nat) (hwork : ∀ u ∈ work, Q u ∨ P u) (hphis : ∀ u ∈ phis, P u) :
    ∀ b ∈ placePhis frontier fuel work defs phis, P b := by
  induction fuel generalizing work defs phis with
  | zero => exact hphis
  | succ fuel ih =>
    cases work with
    | nil => exact hphis
    | cons a work =>
      obtain ⟨ha, hwork⟩ := forall_mem_cons.mp hwork
      have hnew : ∀ u ∈ (frontier a).filter fun u => !phis.contains u, P u :=
        fun u hu => hP a u ha (mem_filter.mp hu).1
      refine ih _ _ _ (forall_mem_append.mpr ⟨hwork, fun u hu => ?_⟩) (forall_mem_append.mpr ⟨hphis, hnew⟩)
      exact .inr (hnew u (mem_filter.mp hu).1)

end placePhis

/-! ## The phis of a graph -/

/-- Each variable of a graph with the blocks that get a phi for it. -/
def Graph.phis (g : Graph) : List (String × List Nat) := Ssa.phiBlocks g (ofGraph g) (Definitions.ofGraph g)

def HasPhi (g : Graph) (v : String) (b : Nat) : Prop := v ∈ Ssa.phiVars g.phis b

/-- The block is among those recorded as binding the variable. -/
def Records (g : Graph) (v : String) (b : Nat) : Prop := b ∈ ((Definitions.ofGraph g).lookup v).getD []

def Graph.frontierTable (g : Graph) (b : Nat) : List Nat :=
  ((g.ids.map fun b => (b, (ofGraph g).frontier g b)).lookup b).getD []

theorem frontierTable_eq (hb : b ∈ g.ids) : g.frontierTable b = (ofGraph g).frontier g b := by
  simp [frontierTable, lookup_map_self, hb]

theorem mem_frontierTable {c : Nat} (h : c ∈ g.frontierTable b) : c ∈ (ofGraph g).frontier g b := by
  by_cases hb : b ∈ g.ids
  · rwa [frontierTable_eq hb] at h
  · simp [frontierTable, lookup_map_self, hb] at h

theorem frontierTable_ids (hg : g.WellFormed) (b : Nat) :
    (g.frontierTable b).Nodup ∧ ∀ c ∈ g.frontierTable b, c ∈ g.ids := by
  constructor
  · by_cases hb : b ∈ g.ids
    · rw [frontierTable_eq hb]
      exact (nodup_reversePostorder hg).filter _
    · simp [frontierTable, lookup_map_self, hb]
  · intro c hc
    exact ((mem_reversePostorder hg).mp (mem_filter.mp (mem_frontierTable hc)).1).mem_ids hg.target_mem hg.entry_mem

theorem hasPhi_iff : HasPhi g v b ↔ ∃ bs, (v, bs) ∈ Definitions.ofGraph g ∧
      b ∈ placePhis g.frontierTable (g.blocks.length + bs.length + 1) bs bs [] := by
  simp only [HasPhi, Ssa.phiVars, phis, Ssa.phiBlocks, mem_map, mem_filter, contains_iff_mem]
  constructor
  · rintro ⟨_, ⟨⟨⟨w, bs⟩, hmem, rfl⟩, hb⟩, rfl⟩
    exact ⟨bs, hmem, hb⟩
  · rintro ⟨bs, hmem, hb⟩
    exact ⟨_, ⟨⟨(v, bs), hmem, rfl⟩, hb⟩, rfl⟩

theorem fuel_placePhis (g : Graph) (bs : List Nat) :
    bs.length + (unseen g.ids bs).length ≤ g.blocks.length + bs.length + 1 := by
  have := length_filter_le (fun x => !bs.contains x) g.ids
  simp only [unseen, ids, length_map] at this ⊢
  omega

theorem hasPhi_of_frontier (hg : g.WellFormed) {u c : Nat} (hu : Records g v u ∨ HasPhi g v u)
    (hc : OnFrontier g u c) : HasPhi g v c := by
  obtain ⟨t, ht⟩ := hc.choose_spec.1.left
  rw [← mem_frontier hg, ← frontierTable_eq (ht.reach.mem_ids hg.target_mem hg.entry_mem)] at hc
  have hclosed : ∀ bs : List Nat, (u ∈ bs ∨ u ∈ placePhis g.frontierTable (g.blocks.length + bs.length + 1) bs bs []) →
      c ∈ placePhis g.frontierTable (g.blocks.length + bs.length + 1) bs bs [] := by
    intro bs hbs
    obtain ⟨-, hwork, hall, -⟩ := placePhis_closed (frontierTable_ids hg) _ bs bs [] (fuel_placePhis g bs)
    rcases hbs with h | h
    · exact hwork u h hc
    · rcases hall u h with h | h | h
      · exact hwork u h hc
      · exact absurd h not_mem_nil
      · exact h hc
  rcases hu with h | h
  · cases hl : (Definitions.ofGraph g).lookup v with
    | none => simp [Records, hl] at h
    | some bs =>
      have hbs : u ∈ bs := by simpa [Records, hl] using h
      obtain ⟨l₁, l₂, heq, -⟩ := lookup_eq_some_iff.mp hl
      exact hasPhi_iff.mpr ⟨bs, by simp [heq], hclosed bs (.inl hbs)⟩
  · obtain ⟨bs, hmem, hu⟩ := hasPhi_iff.mp h
    exact hasPhi_iff.mpr ⟨bs, hmem, hclosed bs (.inr hu)⟩

/-! ## Recorded bindings -/

/-- The blocks recorded for a variable are those that assign it or take it as a parameter. -/
theorem records_iff : Records g v b ↔ ∃ x ∈ g.blocks, x.id = b ∧ v ∈ x.items.flatMap Item.recorded := by
  rw [Records, Definitions.ofGraph, mem_lookup_grouped]
  simp only [mem_flatMap, mem_map, Prod.mk.injEq]
  grind

theorem exists_block_of_mem_itemsOf {i : Item} (hi : i ∈ g.itemsOf b) : ∃ x ∈ g.blocks, x.id = b ∧ i ∈ x.items := by
  cases hb : g.block? b with
  | none => simp [itemsOf, hb] at hi
  | some x =>
    exact ⟨x, mem_of_find?_eq_some hb, by simpa using List.find?_some hb, by simpa [itemsOf, hb] using hi⟩

theorem records_of_mem {i : Item} (hi : i ∈ g.itemsOf b) (hv : v ∈ i.recorded) : Records g v b := by
  obtain ⟨x, hx, hid, hi⟩ := exists_block_of_mem_itemsOf hi
  exact records_iff.mpr ⟨x, hx, hid, mem_flatMap.mpr ⟨i, hi, hv⟩⟩

end SecScan.Flow
