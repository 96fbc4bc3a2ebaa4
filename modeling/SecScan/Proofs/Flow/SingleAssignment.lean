import SecScan.Proofs.Flow.SsaPaths
import Mathlib.Data.List.Flatten

/-!
Single assignment under dominance. A visit starts from the end of the immediate dominator's, so what
holds where a block begins was made in blocks that strictly dominate it (`exists_origin`). Hence in a
graph that was built no two versions have one text, a name that is read has a version that was made
before in its block or in a strict dominator, and an operand of a phi one that was made in the
predecessor or in a strict dominator of it (`made_before_use`). A name that is assigned in place is
left with the version that the assignment makes (`in_place_target_rebound`).
-/

namespace SecScan.Flow

open Syntax List

variable {v : String} {w : Version}

/-- What is overwritten holds a new version, all else what held before. -/
theorem Holding.setAll_eq_some {e : Holding} {ps : List (String × Version)}
    (h : e.setAll ps v = some w) : (v, w) ∈ ps ∨ e v = some w := by
  by_cases hv : v ∈ ps.map (·.1)
  · obtain ⟨x, hx, heq⟩ := setAll_mem (e := e) hv
    rw [h, Option.some.injEq] at heq
    exact .inl (heq ▸ hx)
  · exact .inr ((setAll_of_not_mem hv).symm.trans h)

/-- The versions that a block makes before its item of that number. -/
def SsaBlock.made (s : SsaBlock) (k : Nat) : List Version := { s with items := s.items.take k }.versions

/-- A block that strictly dominates the given one makes the version. -/
def Ssa.MadeAbove (s : Ssa) (b : Nat) (w : Version) : Prop :=
  ∃ d ∈ s.blocks, Dominates s.graph d.id b ∧ d.id ≠ b ∧ w ∈ d.versions

/-- The block makes the version, or one that strictly dominates it does. -/
def Ssa.MadeBy (s : Ssa) (b : Nat) (w : Version) : Prop := (∃ d ∈ s.blocks, d.id = b ∧ w ∈ d.versions) ∨ s.MadeAbove b w

/-- An item makes its versions after those of the items before it and none of them again. -/
theorem SsaBlock.made_by_item {s : SsaBlock} (hs : s.versions.Nodup) {k : Nat} {i : RenamedItem}
    (hi : s.items[k]? = some i) {r : Occurrence × Version} (hr : r ∈ i.writes) :
    r.2 ∈ s.made (k + 1) ∧ r.2 ∉ s.made k := by
  have hnext : s.made (k + 1) = s.made k ++ i.writes.map (·.2) := by simp [made, versions, take_add_one, hi]
  have hsub : (s.made (k + 1)).Sublist s.versions := .append (.refl _) ((take_sublist _ _).flatMap _)
  have hnodup := hnext ▸ hs.sublist hsub
  have hmem : r.2 ∈ i.writes.map (·.2) := mem_map_of_mem hr
  exact ⟨hnext ▸ mem_append_right _ hmem, fun h => (nodup_append'.mp hnodup).2.2 h hmem⟩

section

variable {g : Graph} {x : Visit} {s : SsaBlock}

/-- What holds before an item was made in its block or held where the block begins. -/
theorem Visit.Left.made_or_held (hs : x.Left g s) {e : Latest} {k : Nat}
    (h : (e.holding.setAll x.phis).after (x.items.take k) v = some w) :
    w ∈ s.made k ∨ e.holding v = some w := by
  rcases Holding.setAll_eq_some h with hitem | h
  · obtain ⟨i, hi, hw⟩ := mem_flatMap.mp hitem
    obtain ⟨o, ho, heq⟩ := mem_map.mp hw
    obtain ⟨-, rfl⟩ := Prod.mk.inj heq
    rw [← hs.items] at hi
    exact .inl (mem_append_right _ (mem_flatMap.mpr ⟨i, hi, mem_map_of_mem ho⟩))
  · refine (Holding.setAll_eq_some h).imp_left fun hphi => mem_append_left _ ?_
    show w ∈ s.phis.map (·.result)
    rw [hs.phis, map_map]
    exact mem_map_of_mem (f := (·.2)) hphi

/-- What holds at the end of a block was made there or held where it begins. -/
theorem Visit.Left.made_of_final (hs : x.Left g s) {e : Latest} (he : x.From g e)
    (h : x.final.holding v = some w) : w ∈ s.versions ∨ e.holding v = some w := by
  have hall : s.made x.items.length = s.versions := by rw [SsaBlock.made, ← hs.items, take_length]
  rw [he.final, ← take_length (l := x.items)] at h
  exact hall ▸ hs.made_or_held h

/-- A visit starts from versions that strict dominators made. -/
theorem exists_origin (hg : g.WellFormed) (hx : x ∈ g.visits) :
    ∃ e, x.From g e ∧ ∀ v w, e.holding v = some w → (Ssa.ofGraph g).MadeAbove x.block w := by
  -- induction on the number of strict dominators
  induction hn : (above g x.block).length using Nat.strongRecOn generalizing x with
  | ind n ih =>
    by_cases hb : x.block = g.entry
    · exact ⟨[], visit_entry hg hx hb, nofun⟩
    · obtain ⟨t, ht⟩ := visit_path hg hx
      obtain ⟨d, hd⟩ := exists_immediateDominator ht hb
      obtain ⟨y, hy, rfl, hs⟩ := visit_idom hg hx hd
      obtain ⟨e, he, habove⟩ := ih _ (hn ▸ length_above_lt hg hd) hy rfl
      obtain ⟨z, hz, hleft⟩ := block?_ofGraph hg hy
      refine ⟨y.final, hs, fun v w hw => ?_⟩
      rcases hleft.made_of_final he hw with hmade | hheld
      · exact ⟨z, mem_of_find?_eq_some hz, hleft.id ▸ hd.dominates, hleft.id ▸ hd.ne, hmade⟩
      · obtain ⟨c, hc, hdom, hne, hmade⟩ := habove v w hheld
        refine ⟨c, hc, hdom.trans hd.dominates, fun heq => ?_, hmade⟩
        exact hne (hdom.antisymm (heq ▸ hd.dominates))

/-- What holds at the end of a visit was made in its block or in a strict dominator. -/
theorem madeBy_of_final (hg : g.WellFormed) (hx : x ∈ g.visits)
    (h : x.final.holding v = some w) : (Ssa.ofGraph g).MadeBy x.block w := by
  obtain ⟨e, he, habove⟩ := exists_origin hg hx
  obtain ⟨s, hs, hleft⟩ := block?_ofGraph hg hx
  refine (hleft.made_of_final he h).imp (fun hmade => ?_) (habove v w)
  exact ⟨s, mem_of_find?_eq_some hs, hleft.id.symm, hmade⟩

end

/-- A read that is not undefined is of what holds. -/
theorem Holding.eq_some_of_text_ne {e : Holding} (h : (e.read v).text ≠ v ++ "_undefined") : e v = some (e.read v) := by
  cases hv : e v with
  | none => exact absurd (by rw [read, hv]; rfl) h
  | some w => rw [read, hv, Option.getD_some]

theorem made_before_use (count : Nat) (name : String) (root : Node) :
    let s := Ssa.ofGraph (Graph.buildFrom count name root).1
    (s.versions.map Version.text).Nodup ∧ ∀ b ∈ s.blocks, (∀ k i, b.items[k]? = some i →
        (∀ r ∈ i.writes, r.2 ∈ b.made (k + 1) ∧ r.2 ∉ b.made k) ∧
        ∀ r ∈ i.reads, r.2.text ≠ r.1.name ++ "_undefined" → r.2 ∈ b.made k ∨ s.MadeAbove b.id r.2) ∧
      ∀ phi ∈ b.phis, ∀ o ∈ phi.operands, b.id ∈ s.graph.successors o.1 ∧
        (o.2.text ≠ phi.var ++ "_undefined" → s.MadeBy o.1 o.2) := by
  have hg : (Graph.buildFrom count name root).1.WellFormed := (stage_build count name root).sound.graph
  refine ⟨(nodup_versions hg).map Version.text_injective, fun b hb => ?_⟩
  have hnodup : b.versions.Nodup := (nodup_flatMap.mp (nodup_versions hg)).1 b hb
  obtain ⟨y, -, -, ⟨x, hx, hleft⟩ | ⟨-, hphis, hitems⟩⟩ := cases_ofGraph hb
  · obtain ⟨e, he, habove⟩ := exists_origin hg hx
    constructor
    · intro k i hi
      refine ⟨fun r hr => SsaBlock.made_by_item hnodup hi hr, fun r hr hdefined => ?_⟩
      rw [hleft.items] at hi
      rw [(he.item hi).2] at hr
      obtain ⟨o, -, rfl⟩ := mem_map.mp hr
      rw [← hleft.id]
      exact (hleft.made_or_held (Holding.eq_some_of_text_ne hdefined)).imp_right (habove o.name _)
    · intro phi hphi o ho
      rw [hleft.phis] at hphi
      obtain ⟨q, -, rfl⟩ := mem_map.mp hphi
      obtain ⟨z, hz, rfl⟩ := mem_map.mp ho
      obtain ⟨hz, hedge⟩ := mem_filter.mp hz
      rw [contains_iff_mem, hleft.id] at hedge
      refine ⟨hedge, fun hdefined => ?_⟩
      simp only [Latest.version_eq_read] at hdefined ⊢
      exact madeBy_of_final hg hz (Holding.eq_some_of_text_ne hdefined)
  · refine ⟨fun k i hi => ?_, by simp [hphis]⟩
    rw [hitems] at hi
    obtain ⟨j, -, rfl⟩ := mem_map.mp (mem_of_getElem? hi)
    exact ⟨nofun, nofun⟩

/-- `x = 1; x += 2` -/
def rebinding : Graph := Graph.build "m" <| .module { body := [
      .assign ⟨1, 0, 1, 5⟩ [.name ⟨1, 0, 1, 1⟩ "x" .store] (.constant ⟨1, 4, 1, 5⟩ (.nat 1) none) none,
      .augAssign ⟨2, 0, 2, 6⟩ (.name ⟨2, 0, 2, 1⟩ "x" .store) .add (.constant ⟨2, 5, 2, 6⟩ (.nat 2) none)] }

/-- The second statement reads the first version, and its name is left with the second one, which is
not made before it. -/
theorem in_place_target_rebound : ∃ b ∈ (Ssa.ofGraph rebinding).blocks, ∃ i, b.items[1]? = some i ∧
    (∃ op v, i.item = .stmt (.augAssign ⟨2, 0, 2, 6⟩ (.name ⟨2, 0, 2, 1⟩ "x" .store) op v)) ∧
    i.reads ++ i.writes = [(⟨⟨2, 0, 2, 1⟩, "x", .store⟩, .made "x" 2)] ∧
    .made "x" 1 ∈ b.made 1 ∧ .made "x" 2 ∉ b.made 1 ∧
    ¬ (Ssa.ofGraph rebinding).MadeAbove b.id (.made "x" 2) := by
  have hone : ∀ b ∈ (Ssa.ofGraph rebinding).blocks, b.id = 1 := by decide
  refine ⟨_, mem_cons_self, _, rfl, ⟨_, _, rfl⟩, by decide, by decide, by decide, ?_⟩
  rintro ⟨d, hd, -, hne, -⟩
  exact hne (hone d hd)

end SecScan.Flow
