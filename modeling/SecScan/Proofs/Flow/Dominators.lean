import SecScan.Proofs.Flow.Reachability
import Mathlib.Data.List.Nodup

/-!
Dominance over the paths of a flow graph. A block dominates another if every path to it leads through
the block; this is a partial order (`Dominates.antisymm`), and the dominators of a block form a chain
(`Dominates.total`). The computed dominance is this relation (`dominates_ofGraph`), the computed
immediate dominator is the last strict one (`idom_ofGraph`), and the dominator tree holds every
reachable block once (`mem_treeBlocks`, `nodup_grown`).
-/

namespace SecScan.Flow

open List Dominance

variable {g : Graph} {b d c fuel : Nat} {t : List Nat}

/-- A path from the entry, the latest block first. -/
inductive Trail (g : Graph) : List Nat → Prop where
  | start : Trail g [g.entry]
  | step {b c : Nat} {t : List Nat} : Trail g (b :: t) → c ∈ g.successors b → Trail g (c :: b :: t)

namespace Trail

variable {g : Graph} {b d : Nat} {l t t' : List Nat}

theorem tail (h : Trail g (b :: l)) (hl : l ≠ []) : Trail g l := by
  cases h with
  | start => exact absurd rfl hl
  | step h _ => exact h

theorem eq_entry (h : Trail g [b]) : b = g.entry := by
  cases h
  rfl

theorem edge (h : Trail g (b :: d :: t)) : b ∈ g.successors d := by
  cases h with
  | step _ hc => exact hc

/-- The way to a block on a path is a path. -/
theorem suffix (h : Trail g (l ++ d :: t)) : Trail g (d :: t) := by
  induction l with
  | nil => exact h
  | cons b l ih => exact ih (h.tail (by simp))

/-- The way to a block on a path may be exchanged for another one. -/
theorem splice (h : Trail g (l ++ d :: t)) (h' : Trail g (d :: t')) : Trail g (l ++ d :: t') := by
  induction l with
  | nil => exact h'
  | cons b l ih =>
    have hrest := ih (h.tail (by simp))
    cases l with
    | nil => cases h with | step _ hc => exact hrest.step hc
    | cons a l => cases h with | step _ hc => exact hrest.step hc

end Trail

/-- Blocks that edges lead to are those at the end of a path, and the path enters what they enter. -/
theorem reach_iff_trail {stop : List Nat} :
    Reach g stop g.entry b ↔ ∃ t, Trail g (b :: t) ∧ ∀ x ∈ b :: t, x ∉ stop := by
  constructor
  · intro h
    induction h with
    | start hs => exact ⟨[], .start, by simpa using hs⟩
    | @step b c _ hc hs ih =>
      obtain ⟨t, ht, hstop⟩ := ih
      refine ⟨b :: t, ht.step hc, fun x hx => ?_⟩
      rcases mem_cons.mp hx with rfl | hx
      · exact hs
      · exact hstop x hx
  · rintro ⟨t, ht, hstop⟩
    induction t generalizing b with
    | nil =>
      cases ht
      exact .start (hstop _ mem_cons_self)
    | cons a t ih =>
      cases ht with
      | step ht hc => exact (ih ht fun x hx => hstop x (mem_cons_of_mem _ hx)).step hc (hstop _ mem_cons_self)

theorem Trail.reach (h : Trail g (b :: t)) : Reach g [] g.entry b := reach_iff_trail.mpr ⟨t, h, by simp⟩

/-- There is a path to `b`, and all of them lead through `d`. -/
structure Dominates (g : Graph) (d b : Nat) : Prop where
  path : ∃ t, Trail g (b :: t)
  mem : ∀ t, Trail g (b :: t) → d ∈ b :: t

theorem dominates_iff_reach : Dominates g d b ↔ Reach g [] g.entry b ∧ ¬ Reach g [d] g.entry b := by
  rw [reach_iff_trail, reach_iff_trail]
  constructor
  · rintro ⟨⟨t, ht⟩, hmem⟩
    refine ⟨⟨t, ht, by simp⟩, ?_⟩
    rintro ⟨u, hu, hstop⟩
    exact hstop d (hmem u hu) (by simp)
  · rintro ⟨⟨t, ht, -⟩, hno⟩
    refine ⟨⟨t, ht⟩, fun u hu => ?_⟩
    by_contra hd
    refine hno ⟨u, hu, fun x hx hxd => ?_⟩
    rw [mem_singleton] at hxd
    exact hd (hxd ▸ hx)

namespace Dominates

variable {t : List Nat}
variable {g : Graph} {a b c d : Nat}

theorem refl (h : Trail g (b :: t)) : Dominates g b b := ⟨⟨t, h⟩, fun _ _ => mem_cons_self⟩

theorem entry (h : Trail g (b :: t)) : Dominates g g.entry b := by
  refine ⟨⟨t, h⟩, fun u hu => ?_⟩
  clear h
  induction u generalizing b with
  | nil => cases hu; simp
  | cons c u ih =>
    cases hu with
    | step hu _ => exact mem_cons_of_mem _ (ih hu)

theorem eq_entry (h : Dominates g d g.entry) : d = g.entry := by simpa using h.mem [] .start

theorem left (h : Dominates g d b) : ∃ t, Trail g (d :: t) := by
  obtain ⟨t, ht⟩ := h.path
  obtain ⟨l, u, hu⟩ := append_of_mem (h.mem t ht)
  rw [hu] at ht
  exact ⟨u, ht.suffix⟩

theorem trans (h1 : Dominates g a b) (h2 : Dominates g b c) : Dominates g a c := by
  refine ⟨h2.path, fun t ht => ?_⟩
  obtain ⟨l, u, hu⟩ := append_of_mem (h2.mem t ht)
  rw [hu] at ht ⊢
  exact mem_append_right _ (h1.mem u ht.suffix)

/-- Where a path first comes to a block, it has not come to one that the block dominates. -/
theorem antisymm (h1 : Dominates g a b) (h2 : Dominates g b a) : a = b := by
  by_contra hne
  obtain ⟨t, ht⟩ := h2.path
  obtain ⟨u, v, hfirst, hu⟩ := eq_append_cons_of_mem (mem_reverse.mpr (mem_cons_self : a ∈ a :: t))
  have hsplit : a :: t = v.reverse ++ a :: u.reverse := by simpa using congrArg reverse hfirst
  have ha : Trail g (a :: u.reverse) := (hsplit ▸ ht).suffix
  have hb : b ∈ u.reverse := (mem_cons.mp (h2.mem _ ha)).resolve_left (Ne.symm hne)
  obtain ⟨l, w, hl⟩ := append_of_mem hb
  rw [hl] at ha
  have haw : a ∈ w := (mem_cons.mp (h1.mem w (ha.tail (by simp)).suffix)).resolve_left hne
  exact hu (mem_reverse.mp (by simp [hl, haw]))

/-- Where `b` comes later on a path to `c` than `a`, the way to `b` may avoid `a` only if `a` does not
dominate `c`. -/
theorem of_last (h : Dominates g a c) {l : List Nat} (ht : Trail g (l ++ b :: t))
    (hhead : (l ++ b :: t).head? = some c) (ha : a ∉ l) : Dominates g a b := by
  refine ⟨⟨t, ht.suffix⟩, fun u hu => ?_⟩
  have hnew := ht.splice hu
  have hmem : a ∈ l ++ b :: u := by
    cases l with
    | nil =>
      obtain rfl : b = c := by simpa using hhead
      exact h.mem u hu
    | cons x l =>
      obtain rfl : x = c := by simpa using hhead
      exact h.mem _ hnew
  exact (mem_append.mp hmem).resolve_left ha

/-- The dominators of a block form a chain. -/
theorem total (h1 : Dominates g a c) (h2 : Dominates g b c) : Dominates g a b ∨ Dominates g b a := by
  obtain ⟨t, ht⟩ := h1.path
  -- whichever of the two comes last on this path is dominated by the other
  obtain ⟨x, l, u, hlast, hx, hl, -⟩ := exists_of_eraseP (p := fun y => y = a ∨ y = b) (h1.mem t ht) (by simp)
  simp only [decide_eq_true_eq] at hlast hx
  have hhead : (l ++ x :: u).head? = some c := by rw [← hl]; rfl
  rw [hl] at ht
  rcases hx with rfl | rfl
  · exact .inr (h2.of_last ht hhead fun hb => hlast _ hb (.inr rfl))
  · exact .inl (h1.of_last ht hhead fun ha => hlast _ ha (.inl rfl))

/-- A strict dominator dominates all blocks that lead to the block. -/
theorem of_edge (h : Dominates g d c) (hne : d ≠ c) (ht : Trail g (b :: t))
    (hc : c ∈ g.successors b) : Dominates g d b := by
  refine ⟨⟨t, ht⟩, fun u hu => ?_⟩
  exact (mem_cons.mp (h.mem _ (hu.step hc))).resolve_left hne

end Dominates

/-! ## Computed dominance -/

theorem dominates_ofGraph : (ofGraph g).dominates d b = true ↔ Dominates g d b := by
  rw [dominates_iff_reach, ← mem_reachFrom, ← mem_reachFrom]
  simp only [dominates, ofGraph, List.find?_map]
  cases hd : g.reachable.find? ((fun e : Nat × List Nat => e.1 == d) ∘ fun d =>
      (d, g.reachable.filter fun b => !(g.reachFrom [d] g.entry).contains b)) with
  | none =>
    simp only [Option.map_none, Bool.false_eq_true, false_iff, not_and, not_not]
    intro hb
    -- a block that is not reached cuts nothing off
    have hnot : d ∉ g.reachable := fun h => by simpa using List.find?_eq_none.mp hd d h
    by_contra hcut
    have hdom := dominates_iff_reach.mpr ⟨mem_reachFrom.mp hb, fun h => hcut (mem_reachFrom.mpr h)⟩
    obtain ⟨t, ht⟩ := hdom.left
    exact hnot (mem_reachable.mpr ht.reach)
  | some e =>
    obtain rfl : e = d := by simpa using List.find?_some hd
    simp [Graph.reachable]

theorem strictly_ofGraph : (ofGraph g).strictly d b = true ↔ Dominates g d b ∧ d ≠ b := by
  simp [strictly, dominates_ofGraph, and_comm]

/-- The strict dominator of `b` that all strict dominators of `b` dominate. -/
structure ImmediateDominator (g : Graph) (d b : Nat) : Prop where
  dominates : Dominates g d b
  ne : d ≠ b
  last : ∀ e, Dominates g e b → e ≠ b → Dominates g e d

theorem ImmediateDominator.unique {d' : Nat} (h : ImmediateDominator g d b) (h' : ImmediateDominator g d' b) : d = d' :=
  (h'.last d h.dominates h.ne).antisymm (h.last d' h'.dominates h'.ne)

theorem Dominates.mem_order (hg : g.WellFormed) (h : Dominates g d b) : d ∈ g.reversePostorder := by
  obtain ⟨t, ht⟩ := h.left
  exact (mem_reversePostorder hg).mpr ht.reach

theorem idom_ofGraph (hg : g.WellFormed) : (ofGraph g).idom b = some d ↔ ImmediateDominator g d b := by
  have habove : ∀ e, e ∈ (ofGraph g).order.reverse.filter
      (fun e => (ofGraph g).strictly e b) ↔ Dominates g e b ∧ e ≠ b := by
    intro e
    rw [mem_filter, strictly_ofGraph, mem_reverse, and_iff_right_iff_imp]
    exact fun h => h.1.mem_order hg
  have hlast : ∀ e, ((ofGraph g).order.reverse.filter (fun e => (ofGraph g).strictly e b)).all
        (fun x => (ofGraph g).dominates x e) = true ↔
      ∀ x, Dominates g x b → x ≠ b → Dominates g x e := by
    intro e
    simp only [all_eq_true, dominates_ofGraph]
    exact ⟨fun h x hx hne => h x ((habove x).mpr ⟨hx, hne⟩), fun h x hx =>
      h x ((habove x).mp hx).1 ((habove x).mp hx).2⟩
  have hspec : ∀ e, (ofGraph g).idom b = some e → ImmediateDominator g e b := by
    intro e he
    obtain ⟨hdom, hne⟩ := (habove e).mp (mem_of_find?_eq_some he)
    exact ⟨hdom, hne, (hlast e).mp (by simpa using List.find?_some he)⟩
  refine ⟨hspec d, fun h => ?_⟩
  cases he : (ofGraph g).idom b with
  | none =>
    have := List.find?_eq_none.mp he d ((habove d).mpr ⟨h.dominates, h.ne⟩)
    exact absurd ((hlast d).mpr h.last) this
  | some e => rw [(hspec e he).unique h]

/-- Every reachable block but the entry has an immediate dominator: the last strict one on a path. -/
theorem exists_immediateDominator (ht : Trail g (b :: t)) (hb : b ≠ g.entry) : ∃ d, ImmediateDominator g d b := by
  have hentry : g.entry ∈ t := (mem_cons.mp ((Dominates.entry ht).mem t ht)).resolve_left hb.symm
  obtain ⟨d, l, u, hlast, hd, rfl, -⟩ := exists_of_eraseP (p := fun d => (ofGraph g).strictly d b) hentry
    (strictly_ofGraph.mpr ⟨.entry ht, hb.symm⟩)
  obtain ⟨hdom, hne⟩ := strictly_ofGraph.mp hd
  refine ⟨d, hdom, hne, fun e he hne => he.of_last (l := b :: l) ht rfl fun hmem => ?_⟩
  rcases mem_cons.mp hmem with heq | hmem
  · exact hne heq
  · exact hlast e hmem (strictly_ofGraph.mpr ⟨he, hne⟩)

/-- An edge enters `c` from what `u` dominates, and `u` does not dominate `c` strictly. -/
def OnFrontier (g : Graph) (u c : Nat) : Prop :=
  ∃ b, Dominates g u b ∧ c ∈ g.successors b ∧ ¬ (Dominates g u c ∧ u ≠ c)

theorem OnFrontier.path {u : Nat} (h : OnFrontier g u c) : ∃ t, Trail g (c :: t) := by
  obtain ⟨b, hb, hc, -⟩ := h
  obtain ⟨t, ht⟩ := hb.path
  exact ⟨b :: t, ht.step hc⟩

theorem mem_frontier (hg : g.WellFormed) {u : Nat} : c ∈ (ofGraph g).frontier g u ↔ OnFrontier g u c := by
  simp only [Dominance.frontier, mem_filter, Bool.and_eq_true, any_eq_true, Bool.not_eq_true', Bool.eq_false_iff, ne_eq,
    mem_predecessors, dominates_ofGraph, strictly_ofGraph]
  constructor
  · rintro ⟨-, ⟨b, hc, hb⟩, hu⟩
    exact ⟨b, hb, hc, hu⟩
  · intro h
    obtain ⟨t, ht⟩ := h.path
    obtain ⟨b, hb, hc, hu⟩ := h
    exact ⟨(mem_reversePostorder hg).mpr ht.reach, ⟨b, hc, hb⟩, hu⟩

/-! ## The dominator tree -/

theorem tree_eq_grow (t : Dominance) (b : Nat) : t.tree b = Tree.grow t.children t.order.length b := by
  have hchildren : t.children = fun b =>
      ((t.order.map fun c => (c, t.idom c)).filter fun e => e.2 == some b).map (·.1) := by
    funext b
    simp [children, filter_map, Function.comp_def]
  rw [hchildren]
  rfl

theorem mem_children (hg : g.WellFormed) : c ∈ (ofGraph g).children b ↔ ImmediateDominator g b c := by
  rw [children, mem_filter, beq_iff_eq, idom_ofGraph hg, and_iff_right_iff_imp]
  intro h
  obtain ⟨t, ht⟩ := h.dominates.path
  exact (Dominates.refl ht).mem_order hg

/-- The blocks of a tree that was grown, each before its children. -/
def grown (children : Nat → List Nat) : Nat → Nat → List Nat
  | 0, b => [b]
  | fuel + 1, b => b :: (children b).flatMap (grown children fuel)

theorem mem_grown_child (children : Nat → List Nat) (hd : d ∈ grown children fuel b)
    (hc : c ∈ children d) : c ∈ grown children (fuel + 1) b := by
  induction fuel generalizing b with
  | zero =>
    obtain rfl : d = b := by simpa [grown] using hd
    exact mem_cons_of_mem _ (mem_flatMap.mpr ⟨c, hc, mem_cons_self⟩)
  | succ fuel ih =>
    rcases mem_cons.mp hd with rfl | hd
    · exact mem_cons_of_mem _ (mem_flatMap.mpr ⟨c, hc, mem_cons_self⟩)
    · obtain ⟨e, he, hd⟩ := mem_flatMap.mp hd
      exact mem_cons_of_mem _ (mem_flatMap.mpr ⟨e, he, ih hd⟩)

/-- The strict dominators of a block. -/
def above (g : Graph) (b : Nat) : List Nat := g.reversePostorder.filter fun d => (ofGraph g).strictly d b

variable (hg : g.WellFormed)
include hg

/-- The immediate dominator has fewer strict dominators than the block. -/
theorem length_above_lt (h : ImmediateDominator g d b) : (above g d).length < (above g b).length := by
  have hsub : above g d = (above g b).filter fun e => (ofGraph g).strictly e d := by
    rw [above, above, filter_filter]
    refine filter_congr fun e _ => ?_
    rw [Bool.eq_iff_iff, Bool.and_eq_true, strictly_ofGraph, strictly_ofGraph, iff_self_and]
    rintro ⟨he, hne⟩
    refine ⟨he.trans h.dominates, ?_⟩
    rintro rfl
    exact hne (he.antisymm h.dominates)
  rw [hsub, length_filter_lt_length_iff_exists]
  refine ⟨d, ?_, ?_⟩
  · rw [above, mem_filter, strictly_ofGraph]
    exact ⟨h.dominates.mem_order hg, h.dominates, h.ne⟩
  · rw [strictly_ofGraph]
    exact fun h => h.2 rfl

/-- Whatever is grown below a block is dominated by it. -/
theorem dominates_of_mem_grown {x : Nat} (ht : Trail g (b :: t)) (hx : x ∈ grown (ofGraph g).children fuel b) :
    Dominates g b x := by
  induction fuel generalizing b t with
  | zero =>
    obtain rfl : x = b := by simpa [grown] using hx
    exact .refl ht
  | succ fuel ih =>
    rcases mem_cons.mp hx with rfl | hx
    · exact .refl ht
    · obtain ⟨c, hc, hx⟩ := mem_flatMap.mp hx
      have hbc := ((mem_children hg).mp hc).dominates
      obtain ⟨u, hu⟩ := hbc.path
      exact hbc.trans (ih hu hx)

theorem mem_grown_entry {n : Nat} (ht : Trail g (b :: t)) (hn : (above g b).length ≤ n) :
    b ∈ grown (ofGraph g).children n g.entry := by
  induction n generalizing b t with
  | zero =>
    by_cases hb : b = g.entry
    · rw [hb]
      exact mem_cons_self
    · obtain ⟨d, hd⟩ := exists_immediateDominator ht hb
      have := length_above_lt hg hd
      omega
  | succ n ih =>
    by_cases hb : b = g.entry
    · rw [hb]
      exact mem_cons_self
    · obtain ⟨d, hd⟩ := exists_immediateDominator ht hb
      obtain ⟨u, hu⟩ := hd.dominates.left
      have hlt := length_above_lt hg hd
      exact mem_grown_child _ (ih hu (by omega)) ((mem_children hg).mpr hd)

/-- The dominator tree holds every reachable block. -/
theorem mem_treeBlocks (ht : Trail g (b :: t)) : b ∈ grown (ofGraph g).children (ofGraph g).order.length g.entry :=
  mem_grown_entry hg ht (length_filter_le _ _)

/-- No block is grown twice: what two children of a block dominate has nothing in common. -/
theorem nodup_grown (fuel : Nat) (ht : Trail g (b :: t)) : (grown (ofGraph g).children fuel b).Nodup := by
  induction fuel generalizing b t with
  | zero => simp [grown]
  | succ fuel ih =>
    have hchild : ∀ c ∈ (ofGraph g).children b, ImmediateDominator g b c := fun c hc => (mem_children hg).mp hc
    refine nodup_cons.mpr ⟨fun hb => ?_, nodup_flatMap.mpr ⟨fun c hc => ?_, ?_⟩⟩
    · obtain ⟨c, hc, hbc⟩ := mem_flatMap.mp hb
      obtain ⟨u, hu⟩ := (hchild c hc).dominates.path
      exact (hchild c hc).ne ((hchild c hc).dominates.antisymm (dominates_of_mem_grown hg hu hbc))
    · obtain ⟨u, hu⟩ := (hchild c hc).dominates.path
      exact ih hu
    · have hnodup : ((ofGraph g).children b).Nodup := (nodup_reversePostorder hg).filter _
      refine (List.Pairwise.imp_of_mem ?_ hnodup)
      intro c d hc hd hne x hxc hxd
      have hbc := hchild c hc
      have hbd := hchild d hd
      obtain ⟨u, hu⟩ := hbc.dominates.path
      obtain ⟨v, hv⟩ := hbd.dominates.path
      rcases (dominates_of_mem_grown hg hu hxc).total (dominates_of_mem_grown hg hv hxd) with h | h
      · exact hbc.ne (hbc.dominates.antisymm (hbd.last c h hne))
      · exact hbd.ne (hbd.dominates.antisymm (hbc.last d h hne.symm))

end SecScan.Flow
