import SecScan.Proofs.Flow.Visits

/-!
Phis stand on iterated frontiers. A block has a phi for a variable just if it lies on the frontier of a block
that is recorded for the variable, or of another block that does (`hasPhi_iff_iterated`), and not two of them,
since each variable is recorded under one key (`nodup_keys`). In the renamed graph a phi has one operand for
each predecessor that the entry leads to (`phis_on_iterated_frontier`).
-/

namespace SecScan.Flow

open List Dominance Ssa

variable {g : Graph} {b : Nat} {v : String}

/-- Blocks on the frontier of a recorded block, of a block on such a frontier, and so on. -/
inductive IteratedFrontier (g : Graph) (v : String) : Nat → Prop where
  | first {u c : Nat} : Records g v u → OnFrontier g u c → IteratedFrontier g v c
  | next {u c : Nat} : IteratedFrontier g v u → OnFrontier g u c → IteratedFrontier g v c

theorem IteratedFrontier.path (h : IteratedFrontier g v b) : ∃ t, Trail g (b :: t) := by
  cases h with
  | first _ hc | next _ hc => exact hc.path

/-! ## One entry for each variable -/

theorem nodup_keys (g : Graph) : ((Definitions.ofGraph g).map (·.1)).Nodup := by
  simp only [Definitions.ofGraph, grouped, map_map, Function.comp_def, map_id']
  exact nodup_eraseDups _

theorem records_of_mem_entry {bs : List Nat} (h : (v, bs) ∈ Definitions.ofGraph g) (hb : b ∈ bs) : Records g v b :=
  mem_lookup_grouped.mpr ((mem_grouped h).mp hb)

theorem nodup_phiVars (g : Graph) (b : Nat) : (phiVars g.phis b).Nodup := by
  have hkeys : g.phis.map (·.1) = (Definitions.ofGraph g).map (·.1) := by
    simp [Graph.phis, phiBlocks, Function.comp_def]
  exact (filter_sublist.map _).nodup (hkeys ▸ nodup_keys g)

/-! ## Placement -/

theorem hasPhi_iff_iterated (hg : g.WellFormed) : HasPhi g v b ↔ IteratedFrontier g v b := by
  constructor
  · intro h
    obtain ⟨bs, hmem, hb⟩ := hasPhi_iff.mp h
    refine placePhis_sound (Q := Records g v) (fun u c hu hc => ?_) _ bs bs []
      (fun u hu => .inl (records_of_mem_entry hmem hu)) (by simp) b hb
    have hc := (mem_frontier hg).mp (mem_frontierTable hc)
    exact hu.elim (.first · hc) (.next · hc)
  · intro h
    induction h with
    | first hu hc => exact hasPhi_of_frontier hg (.inl hu) hc
    | next _ hc ih => exact hasPhi_of_frontier hg (.inr ih) hc

theorem operands_keys (visits : List Visit) : (operands g visits b v).map (·.1) =
    (visits.filter fun x => (g.successors x.block).contains b).map (·.block) := by
  simp [operands, Function.comp_def]

theorem mem_operands_keys (hg : g.WellFormed) {c : Nat} : c ∈ (operands g g.visits b v).map (·.1) ↔
    c ∈ g.predecessors b ∧ Reach g [] g.entry c := by
  simp only [operands_keys, mem_map, mem_filter, contains_iff_mem, mem_predecessors]
  constructor
  · rintro ⟨x, ⟨hx, hb⟩, rfl⟩
    obtain ⟨t, ht⟩ := visit_path hg hx
    exact ⟨hb, ht.reach⟩
  · rintro ⟨hb, hc⟩
    obtain ⟨t, ht, -⟩ := reach_iff_trail.mp hc
    obtain ⟨x, hx, rfl⟩ := exists_visit hg ht
    exact ⟨x, ⟨hx, hb⟩, rfl⟩

/-- In the blocks with their versions, phis stand on iterated frontiers and have an operand for each way in from
the entry. The worklist is empty before its fuel is used up: more of it changes nothing. -/
theorem phis_on_iterated_frontier {g : Graph} (hg : g.WellFormed) :
    (∀ s ∈ (Ssa.ofGraph g).blocks, (∀ v, v ∈ s.phis.map (·.var) ↔ IteratedFrontier g v s.id) ∧
      (s.phis.map (·.var)).Nodup ∧ ∀ p ∈ s.phis, (p.operands.map (·.1)).Nodup ∧
        ∀ c, c ∈ p.operands.map (·.1) ↔ c ∈ g.predecessors s.id ∧ Reach g [] g.entry c) ∧
    ∀ e ∈ Definitions.ofGraph g, ∀ more,
      placePhis g.frontierTable (g.blocks.length + e.2.length + 1 + more) e.2 e.2 [] =
        placePhis g.frontierTable (g.blocks.length + e.2.length + 1) e.2 e.2 [] := by
  refine ⟨fun s hs => ?_, fun e _ => (placePhis_closed (frontierTable_ids hg) _ _ _ [] (fuel_placePhis g e.2)).2.2.2⟩
  obtain ⟨y, -, -, ⟨x, hx, hleft⟩ | ⟨hnone, hphis, -⟩⟩ := cases_ofGraph hs
  · obtain ⟨e, he⟩ := exists_from hg hx
    have hvars : s.phis.map (·.var) = phiVars g.phis s.id := by
      rw [hleft.phis, map_map, ← hleft.id, ← he.vars]
      rfl
    refine ⟨fun v => hvars ▸ hasPhi_iff_iterated hg, hvars ▸ nodup_phiVars g s.id, fun p hp => ?_⟩
    rw [hleft.phis] at hp
    obtain ⟨q, -, rfl⟩ := mem_map.mp hp
    refine ⟨?_, fun c => hleft.id ▸ mem_operands_keys hg⟩
    rw [operands_keys]
    exact (filter_sublist.map _).nodup (nodup_visits hg)
  · refine ⟨fun v => ?_, by simp [hphis], by simp [hphis]⟩
    simp only [hphis, map_nil, not_mem_nil, false_iff]
    intro h
    obtain ⟨t, ht⟩ := h.path
    obtain ⟨x, hx, hblock⟩ := exists_visit hg ht
    exact hnone x hx hblock

/-- Two blocks that lead to each other and are both entered from outside; in the first of them a name is bound. -/
def tangled : Graph where
  name := "m"
  entry := 0
  blocks := [⟨0, ⟨"m", false⟩, []⟩,
    ⟨1, ⟨"m", false⟩, [.stmt (.assign ⟨1, 0, 1, 5⟩ [.name ⟨1, 0, 1, 1⟩ "x" .store]
      (.constant ⟨1, 4, 1, 5⟩ (.nat 0) none) none)]⟩,
    ⟨2, ⟨"m", false⟩, []⟩]
  edges := [⟨0, 1, none⟩, ⟨0, 2, none⟩, ⟨1, 2, none⟩, ⟨2, 1, none⟩]

/-- Both have a phi: the second is on the frontier of the first, and the first on that of the second. -/
theorem phis_of_tangled : tangled.WellFormed ∧ ∀ s ∈ (Ssa.ofGraph tangled).blocks, s.id ≠ tangled.entry →
    IteratedFrontier tangled "x" s.id ∧ ∀ p ∈ s.phis, ∀ c, c ∈ p.operands.map (·.1) ↔
      c ∈ tangled.predecessors s.id ∧ Reach tangled [] tangled.entry c := by
  have hg : tangled.WellFormed := ⟨by decide, by decide, by decide, by decide⟩
  have hphi : ∀ s ∈ (Ssa.ofGraph tangled).blocks, s.id ≠ tangled.entry → "x" ∈ s.phis.map (·.var) := by decide
  refine ⟨hg, fun s hs hne => ?_⟩
  obtain ⟨hvars, -, hoperands⟩ := (phis_on_iterated_frontier hg).1 s hs
  exact ⟨(hvars "x").mp (hphi s hs hne), fun p hp => (hoperands p hp).2⟩

end SecScan.Flow
