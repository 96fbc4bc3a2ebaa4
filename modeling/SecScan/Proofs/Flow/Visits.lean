import SecScan.Proofs.Flow.Renaming
import Mathlib.Data.List.Pairwise

/-!
The visits of a graph's blocks. Every reachable block is visited once (`exists_visit`,
`visit_unique`) and starts from the end of its immediate dominator (`visit_idom`). So where no phi of
a variable stands between a block and a successor of it, both have the same version of the variable
(`holding_of_edge`): what binds the variable on the way up from the block to the successor's immediate
dominator would have the successor on its frontier.
-/

namespace SecScan.Flow

open List Dominance Renaming

variable {g : Graph} {b k : Nat} {x : Visit}
variable {v : String} {y : Visit} {i : RenamedItem} {s : SsaBlock}

/-- Renamed blocks of a graph in the order of their visit. -/
def Graph.visits (g : Graph) : List Visit := Ssa.visits g (ofGraph g) g.phis

/-- Some item of the block makes a version of the variable. -/
def Binds (g : Graph) (v : String) (b : Nat) : Prop := ∃ i ∈ g.itemsOf b, v ∈ i.binds.map (·.name)

abbrev Visit.From (g : Graph) (e : Latest) (x : Visit) : Prop := x.StartsFrom (Ssa.phiVars g.phis) g.itemsOf e

theorem visits_eq (g : Graph) : g.visits = (renameTree (Ssa.phiVars g.phis) g.itemsOf ⟨[], []⟩
    (Tree.grow (ofGraph g).children (ofGraph g).order.length g.entry)).1 := by
  rw [Graph.visits, Ssa.visits, tree_eq_grow]

theorem visits_blocks (g : Graph) : g.visits.map (·.block) =
    grown (ofGraph g).children (ofGraph g).order.length g.entry := by
  rw [visits_eq, renameTree_blocks]

section

variable (hg : g.WellFormed)
include hg

theorem nodup_visits : (g.visits.map (·.block)).Nodup := by
  rw [visits_blocks]
  exact nodup_grown hg _ .start

theorem exists_visit {t : List Nat} (ht : Trail g (b :: t)) : ∃ x ∈ g.visits, x.block = b := by
  have hb := mem_treeBlocks hg ht
  rw [← visits_blocks] at hb
  exact mem_map.mp hb

variable (hx : x ∈ g.visits)
include hx

theorem visit_unique (hy : y ∈ g.visits) (h : x.block = y.block) : x = y :=
  inj_on_of_nodup_map (nodup_visits hg) hx hy h

theorem visit_path : ∃ t, Trail g (x.block :: t) := by
  have hb : x.block ∈ g.visits.map (·.block) := mem_map_of_mem hx
  rw [visits_blocks] at hb
  exact (dominates_of_mem_grown hg .start hb).path

theorem visit_entry (hb : x.block = g.entry) : x.From g [] := by
  rw [visits_eq] at hx
  rcases visit_origin _ _ _ _ _ _ hx with ⟨-, hs⟩ | ⟨y, -, hc, -⟩
  · exact hs
  · have hd := (mem_children hg).mp hc
    rw [hb] at hd
    exact absurd hd.dominates.eq_entry hd.ne

theorem visit_idom {d : Nat}
    (hd : ImmediateDominator g d x.block) : ∃ y ∈ g.visits, y.block = d ∧ x.From g y.final := by
  rw [visits_eq] at hx ⊢
  rcases visit_origin _ _ _ _ _ _ hx with ⟨hb, -⟩ | ⟨y, hy, hc, hs⟩
  · rw [hb] at hd
    exact absurd hd.dominates.eq_entry hd.ne
  · exact ⟨y, hy, ((mem_children hg).mp hc).unique hd, hs⟩

theorem exists_from : ∃ e, x.From g e := by
  by_cases hb : x.block = g.entry
  · exact ⟨[], visit_entry hg hx hb⟩
  · obtain ⟨t, ht⟩ := visit_path hg hx
    obtain ⟨d, hd⟩ := exists_immediateDominator ht hb
    obtain ⟨y, -, -, hs⟩ := visit_idom hg hx hd
    exact ⟨y.final, hs⟩

end

namespace Visit.From

variable {g : Graph} {e : Latest} {x : Visit} (h : x.From g e)
include h

theorem vars : x.phis.map (·.1) = Ssa.phiVars g.phis x.block := by
  obtain ⟨counts, h⟩ := h
  rw [h]
  exact phis_vars _ _

theorem final : x.final.holding = (e.holding.setAll x.phis).after x.items := by
  obtain ⟨counts, h⟩ := h
  rw [h]
  simp only [visitOf, renamedBlock]
  rw [items_holding, phis_holding]

theorem items_item : x.items.map (·.item) = g.itemsOf x.block := by
  obtain ⟨counts, h⟩ := h
  rw [h]
  exact Renaming.items_item _ _

theorem item (hi : x.items[k]? = some i) : i.writes.map (·.1) = i.item.binds ∧ i.reads = i.item.reads.map fun o =>
      (o, ((e.holding.setAll x.phis).after (x.items.take k)).read o.name) := by
  obtain ⟨counts, h⟩ := h
  rw [h] at hi ⊢
  obtain ⟨-, hw, hr⟩ := items_get hi
  rw [phis_holding] at hr
  exact ⟨hw, hr⟩

theorem made (hi : i ∈ x.items) {w : Occurrence × Version} (hw : w ∈ i.writes) : ∃ k, w.2 = .made w.1.name k := by
  obtain ⟨counts, h⟩ := h
  rw [h] at hi
  exact items_made _ _ hi hw

/-- What holds between the items of a block are latest versions as well. -/
theorem exists_latest (k : Nat) : ∃ l : Latest, (e.holding.setAll x.phis).after (x.items.take k) = l.holding := by
  obtain ⟨counts, h⟩ := h
  let entered := (Renaming.phis ⟨e, counts⟩ (Ssa.phiVars g.phis x.block)).1
  refine ⟨(entered.items ((g.itemsOf x.block).take k)).1.current, ?_⟩
  rw [items_holding, ← items_take, phis_holding, h]
  rfl

theorem bound_names (hi : x.items[k]? = some i) : i.bound.map (·.1) = i.item.binds.map (·.name) := by
  rw [← (h.item hi).1]
  simp [RenamedItem.bound]

/-- What no item binds keeps its version through the block's items. -/
theorem after_of_not_binds (hv : ¬ Binds g v x.block) (f : Holding) (k : Nat) : f.after (x.items.take k) v = f v := by
  refine Holding.setAll_of_not_mem fun hmem => hv ?_
  obtain ⟨p, hp, rfl⟩ := mem_map.mp hmem
  obtain ⟨i, hi, hp⟩ := mem_flatMap.mp hp
  have hi := mem_of_mem_take hi
  obtain ⟨k, hk⟩ := List.getElem?_of_mem hi
  refine ⟨i.item, h.items_item ▸ mem_map_of_mem hi, ?_⟩
  rw [← h.bound_names hk]
  exact mem_map_of_mem hp

theorem final_of_unbound (hphi : ¬ HasPhi g v x.block)
    (hv : ¬ Binds g v x.block) : x.final.holding v = e.holding v := by
  have hitems := h.after_of_not_binds hv (e.holding.setAll x.phis) x.items.length
  rw [take_length] at hitems
  rw [h.final, hitems]
  exact Holding.setAll_of_not_mem (h.vars ▸ hphi)

end Visit.From

/-- A variable that nothing binds strictly below a dominator has the dominator's version. -/
theorem finalAt_eq_of_unbound (hg : g.WellFormed)
    (hx : x ∈ g.visits) (hy : y ∈ g.visits) (hdom : Dominates g y.block x.block)
    (hv : ∀ u, Dominates g u x.block → ¬ Dominates g u y.block → ¬ HasPhi g v u ∧ ¬ Binds g v u) :
    x.final.holding v = y.final.holding v := by
  -- induction on the number of strict dominators, from the block up to the dominator
  induction hn : (above g x.block).length using Nat.strongRecOn generalizing x with
  | ind n ih =>
    by_cases heq : y.block = x.block
    · rw [visit_unique hg hy hx heq]
    · obtain ⟨t, ht⟩ := visit_path hg hx
      have hentry : x.block ≠ g.entry := by
        intro h
        rw [h] at hdom heq
        exact heq hdom.eq_entry
      obtain ⟨d, hd⟩ := exists_immediateDominator ht hentry
      obtain ⟨z, hz, rfl, hs⟩ := visit_idom hg hx hd
      have hhere := hv x.block (.refl ht) fun h => heq (hdom.antisymm h)
      rw [hs.final_of_unbound hhere.1 hhere.2]
      exact ih _ (hn ▸ length_above_lt hg hd) hz (hd.last _ hdom heq)
        (fun u hu hno => hv u (hu.trans hd.dominates) hno) rfl

/-- A block without a phi of a variable starts from its version at the end of any predecessor, if
what binds the variable between the predecessor and the immediate dominator is recorded. -/
theorem holding_of_edge (hg : g.WellFormed) {c : Nat}
    (hx : x ∈ g.visits) (hy : y ∈ g.visits) (hc : c ∈ g.successors x.block)
    (hd : ImmediateDominator g y.block c) (hphi : ¬ HasPhi g v c)
    (hrec : ∀ u, Dominates g u x.block → ¬ Dominates g u y.block → Binds g v u → Records g v u) :
    y.final.holding v = x.final.holding v := by
  obtain ⟨t, ht⟩ := visit_path hg hx
  refine (finalAt_eq_of_unbound hg hx hy (hd.dominates.of_edge hd.ne ht hc) fun u hu hno => ?_).symm
  have hfrontier : OnFrontier g u c := ⟨_, hu, hc, fun h => hno (hd.last u h.1 h.2)⟩
  exact ⟨fun h => hphi (hasPhi_of_frontier hg (.inr h) hfrontier),
    fun h => hphi (hasPhi_of_frontier hg (.inl (hrec u hu hno h)) hfrontier)⟩

/-! ## Blocks with their versions -/

theorem find?_key_of_mem {α : Type} {key : α → Nat} {xs : List α} (hnodup : (xs.map key).Nodup) {x : α}
    (hx : x ∈ xs) : xs.find? (key · == key x) = some x := by
  cases h : xs.find? (key · == key x) with
  | none => simpa using List.find?_eq_none.mp h x hx
  | some y =>
    have hkey : key y = key x := by simpa using List.find?_some h
    rw [inj_on_of_nodup_map hnodup (mem_of_find?_eq_some h) hx hkey]

theorem itemsOf_of_mem (hg : g.WellFormed) {x : Block} (hx : x ∈ g.blocks) : g.itemsOf x.id = x.items := by
  have hfind : g.block? x.id = some x := find?_key_of_mem hg.nodup hx
  rw [Graph.itemsOf, hfind]
  rfl

theorem ids_ofGraph (g : Graph) : (Ssa.ofGraph g).blocks.map (·.id) = g.ids := by
  show (g.blocks.map (Ssa.renamed g g.visits)).map (·.id) = g.blocks.map (·.id)
  rw [map_map]
  refine map_congr_left fun b _ => ?_
  rw [Function.comp_apply, Ssa.renamed]
  split <;> rfl

structure Visit.Left (g : Graph) (x : Visit) (s : SsaBlock) : Prop where
  id : x.block = s.id
  items : s.items = x.items
  phis : s.phis = x.phis.map fun p => { var := p.1, result := p.2, operands := Ssa.operands g g.visits x.block p.1 }

/-- A block is as its visit left it, or it was not visited and has no versions. -/
theorem cases_ofGraph (hs : s ∈ (Ssa.ofGraph g).blocks) : ∃ b ∈ g.blocks, b.id = s.id ∧ ((∃ x ∈ g.visits, x.Left g s) ∨
      (∀ x ∈ g.visits, x.block ≠ s.id) ∧ s.phis = [] ∧ s.items = b.items.map fun i => ⟨i, [], []⟩) := by
  obtain ⟨b, hb, hrenamed⟩ := mem_map.mp hs
  refine ⟨b, hb, ?_⟩
  change Ssa.renamed g g.visits b = s at hrenamed
  unfold Ssa.renamed at hrenamed
  split at hrenamed <;> subst hrenamed
  · rename_i x hx
    have hid : x.block = b.id := by simpa using List.find?_some hx
    exact ⟨rfl, .inl ⟨x, mem_of_find?_eq_some hx, hid, rfl, hid ▸ rfl⟩⟩
  · rename_i hx
    exact ⟨rfl, .inr ⟨by simpa using hx, rfl, rfl⟩⟩

/-- A reachable block is found as its visit left it. -/
theorem block?_ofGraph (hg : g.WellFormed) (hx : x ∈ g.visits) :
    ∃ s, (Ssa.ofGraph g).block? x.block = some s ∧ x.Left g s := by
  obtain ⟨t, ht⟩ := visit_path hg hx
  have hid := ht.reach.mem_ids hg.target_mem hg.entry_mem
  rw [← ids_ofGraph] at hid
  obtain ⟨s, hs, hsid⟩ := mem_map.mp hid
  refine ⟨s, hsid ▸ find?_key_of_mem (ids_ofGraph g ▸ hg.nodup) hs, ?_⟩
  obtain ⟨-, -, -, ⟨y, hy, hleft⟩ | ⟨hnone, -⟩⟩ := cases_ofGraph hs
  · rwa [visit_unique hg hx hy (hsid.symm.trans hleft.id.symm)]
  · exact absurd hsid.symm (hnone x hx)

theorem mem_operands (hg : g.WellFormed) (hx : x ∈ g.visits) (hb : b ∈ g.successors x.block) {w : Version} :
    (x.block, w) ∈ Ssa.operands g g.visits b v ↔ w = x.final.holding.read v := by
  simp only [Ssa.operands, mem_map, mem_filter, contains_iff_mem, Prod.mk.injEq, Latest.version_eq_read]
  constructor
  · rintro ⟨y, ⟨hy, -⟩, hyx, rfl⟩
    rw [visit_unique hg hy hx hyx]
  · rintro rfl
    exact ⟨x, ⟨hx, hb⟩, rfl, rfl⟩

/-- Lists that share an element are one if the joined list repeats nothing. -/
theorem eq_of_mem_flatMap {α β : Type} {l : List α} {f : α → List β} (h : (l.flatMap f).Nodup)
    {x y : α} {w : β} (hx : x ∈ l) (hy : y ∈ l) (hwx : w ∈ f x) (hwy : w ∈ f y) : x = y := by
  have hsymm : Std.Symm (Function.onFun List.Disjoint f) := ⟨fun _ _ h => disjoint_symm h⟩
  by_contra hne
  exact (nodup_flatMap.mp h).2.forall hx hy hne hwx hwy

def SsaBlock.versions (s : SsaBlock) : List Version :=
  s.phis.map (·.result) ++ s.items.flatMap fun i => i.writes.map (·.2)

theorem Visit.Left.versions (h : x.Left g s) : s.versions = x.versions := by
  simp [SsaBlock.versions, Visit.versions, h.items, h.phis, Function.comp_def]

theorem exists_left_of_versions (hs : s ∈ (Ssa.ofGraph g).blocks)
    (hne : s.versions ≠ []) : ∃ x ∈ g.visits, x.Left g s := by
  obtain ⟨b, -, -, hleft | ⟨-, hphis, hitems⟩⟩ := cases_ofGraph hs
  · exact hleft
  · exact absurd (by simp [SsaBlock.versions, hphis, hitems]) hne

/-- No version is made twice. -/
theorem nodup_versions (hg : g.WellFormed) : (Ssa.ofGraph g).versions.Nodup := by
  have hfresh := Fresh.tree (Ssa.phiVars g.phis) g.itemsOf (ofGraph g).children
    (ofGraph g).order.length ⟨[], []⟩ g.entry
  rw [← visits_eq] at hfresh
  show ((Ssa.ofGraph g).blocks.flatMap SsaBlock.versions).Nodup
  rw [nodup_flatMap]
  constructor
  · intro s hs
    by_cases hne : s.versions = []
    · exact hne ▸ nodup_nil
    · obtain ⟨x, hx, hleft⟩ := exists_left_of_versions hs hne
      exact hleft.versions ▸ (nodup_flatMap.mp hfresh.nodup).1 x hx
  · have hids : (Ssa.ofGraph g).blocks.Pairwise fun a b => a.id ≠ b.id := pairwise_map.mp (ids_ofGraph g ▸ hg.nodup)
    refine hids.imp_of_mem fun {a b} ha hb hne w hwa hwb => hne ?_
    obtain ⟨x, hx, hxa⟩ := exists_left_of_versions ha (ne_nil_of_mem hwa)
    obtain ⟨y, hy, hyb⟩ := exists_left_of_versions hb (ne_nil_of_mem hwb)
    have hxy := eq_of_mem_flatMap hfresh.nodup hx hy (hxa.versions ▸ hwa) (hyb.versions ▸ hwb)
    rw [← hxa.id, ← hyb.id, hxy]

end SecScan.Flow
