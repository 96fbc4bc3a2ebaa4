import SecScan.Flow.Dominance
import Mathlib.Data.List.Perm.Subperm

/-!
What the searches of a flow graph find. `explore` finds exactly the blocks that edges lead to without
entering a stop (`mem_reachFrom`), and the depth-first order lists every reachable block once
(`mem_reversePostorder`, `nodup_reversePostorder`). Both run on fuel; the proofs show that the fuel
given never ends a search early.
-/

namespace SecScan.Flow

open List SecScan.Flow.Graph

variable {g : Graph} {b c : Nat}

/-- Edges lead from `a` to a block, without entering `stop`. -/
inductive Reach (g : Graph) (stop : List Nat) (a : Nat) : Nat → Prop where
  | start : a ∉ stop → Reach g stop a a
  | step {b c : Nat} : Reach g stop a b → c ∈ g.successors b → c ∉ stop → Reach g stop a c

/-- Blocks have ids of their own, and the entry and every edge's ends are blocks. -/
structure Graph.WellFormed (g : Graph) : Prop where
  nodup : g.ids.Nodup
  entry_mem : g.entry ∈ g.ids
  source_mem : ∀ e ∈ g.edges, e.source ∈ g.ids
  target_mem : ∀ e ∈ g.edges, e.target ∈ g.ids

theorem mem_successors : c ∈ g.successors b ↔ ∃ e ∈ g.edges, e.source = b ∧ e.target = c := by
  simp [successors, outEdges, and_assoc]

theorem mem_predecessors : b ∈ g.predecessors c ↔ c ∈ g.successors b := by
  simp only [mem_successors, predecessors, mem_map, mem_filter, beq_iff_eq]
  constructor
  · rintro ⟨e, ⟨he, ht⟩, hs⟩
    exact ⟨e, he, hs, ht⟩
  · rintro ⟨e, he, hs, ht⟩
    exact ⟨e, ⟨he, ht⟩, hs⟩

theorem ne_entry_of_edge (hentry : g.predecessors g.entry = []) (hc : c ∈ g.successors b) : c ≠ g.entry := by
  rintro rfl
  have hb : b ∈ g.predecessors g.entry := mem_predecessors.mpr hc
  simp [hentry] at hb

theorem Graph.WellFormed.successor_mem (h : g.WellFormed) (hc : c ∈ g.successors b) : c ∈ g.ids := by
  obtain ⟨e, he, -, rfl⟩ := mem_successors.mp hc
  exact h.target_mem e he

/-! ## Search with a stack -/

/-- Edges out of blocks that were not met yet. -/
def waiting (g : Graph) (seen : List Nat) : List Edge := g.edges.filter fun e => !seen.contains e.source

/-- Meeting a block hands its edges from the waiting ones to the stack. -/
theorem length_waiting_cons (g : Graph) {seen : List Nat} {n : Nat} (hn : n ∉ seen) :
    (g.successors n).length + (waiting g (n :: seen)).length = (waiting g seen).length := by
  simp only [successors, outEdges, waiting, length_map, contains_cons]
  induction g.edges with
  | nil => rfl
  | cons e es ih =>
    by_cases he : e.source = n
    · have hs : seen.contains e.source = false := by simpa [he] using hn
      simp only [filter_cons, he, beq_self_eq_true, ↓reduceIte, length_cons, Bool.true_or,
        Bool.not_true, Bool.false_eq_true]
      rw [he] at hs
      simp only [hs, Bool.not_false, ↓reduceIte, length_cons]
      omega
    · have hb : (e.source == n) = false := by simpa using he
      simp only [filter_cons, hb, Bool.false_eq_true, ↓reduceIte, Bool.false_or]
      split
      · simp only [length_cons]
        omega
      · exact ih

/-- Between two steps of a search from `a`: the blocks met can be reached, and they and the stack hold `a` and what the
blocks met lead to. -/
structure Searching (g : Graph) (stop : List Nat) (a : Nat) (stack seen : List Nat) : Prop where
  next : ∀ c ∉ stop, (c ∈ seen ∨ c ∈ stack ↔ c = a ∨ ∃ n ∈ seen, c ∈ g.successors n)
  reach : ∀ n ∈ seen, Reach g stop a n

namespace Searching

variable {stop stack seen : List Nat} {a n : Nat}

theorem skip (h : Searching g stop a (n :: stack) seen) (hn : n ∈ seen ∨ n ∈ stop) :
    Searching g stop a stack seen := by
  refine ⟨fun c hc => ?_, h.reach⟩
  have hold : c = n → c ∈ seen := by
    rintro rfl
    exact hn.resolve_right hc
  rw [← h.next c hc, mem_cons]
  tauto

theorem meet (h : Searching g stop a (n :: stack) seen) (hn : n ∉ stop) :
    Searching g stop a (g.successors n ++ stack) (n :: seen) := by
  refine ⟨fun c hc => ?_, forall_mem_cons.mpr ⟨?_, h.reach⟩⟩
  · have hold := h.next c hc
    simp only [mem_cons, mem_append, exists_eq_or_imp] at hold ⊢
    rw [or_left_comm (a := c = a), ← hold]
    tauto
  · rcases (h.next n hn).mp (.inr mem_cons_self) with rfl | ⟨u, hu, hlead⟩
    · exact .start hn
    · exact (h.reach u hu).step hlead hn

/-- With a unit of fuel for every block on the stack and every waiting edge, the search goes on until the stack is
empty. -/
theorem explore (h : Searching g stop a stack seen) {fuel : Nat}
    (hfuel : stack.length + (waiting g seen).length ≤ fuel) :
    Searching g stop a [] (explore g.successors stop fuel stack seen) := by
  induction fuel generalizing stack seen with
  | zero =>
    obtain rfl : stack = [] := eq_nil_of_length_eq_zero (by omega)
    exact h
  | succ fuel ih =>
    cases stack with
    | nil => exact h
    | cons n stack =>
      rw [length_cons] at hfuel
      simp only [Flow.explore]
      split
      · rename_i hold
        exact ih (h.skip (by simpa using hold)) (by omega)
      · rename_i hnew
        simp only [Bool.or_eq_true, contains_iff_mem, not_or] at hnew
        have := length_waiting_cons g hnew.1
        exact ih (h.meet hnew.2) (by rw [length_append]; omega)

end Searching

/-- The search finds what edges lead to without entering a stop. -/
theorem mem_reachFrom {stop : List Nat} {a : Nat} : b ∈ g.reachFrom stop a ↔ Reach g stop a b := by
  have hfuel : [a].length + (waiting g []).length ≤ g.edges.length + 2 := by
    have := length_filter_le (fun e : Edge => !([] : List Nat).contains e.source) g.edges
    simp only [waiting, length_singleton]
    omega
  have hstart : Searching g stop a [a] [] := ⟨by simp, by simp⟩
  have h : Searching g stop a [] (g.reachFrom stop a) := hstart.explore hfuel
  refine ⟨h.reach b, fun hway => ?_⟩
  induction hway with
  | start ha => simpa using (h.next a ha).mpr (.inl rfl)
  | step _ hc hstop ih => simpa using (h.next _ hstop).mpr (.inr ⟨_, ih, hc⟩)

theorem mem_reachable : b ∈ g.reachable ↔ Reach g [] g.entry b := mem_reachFrom

theorem Reach.mem_ids (hg : ∀ e ∈ g.edges, e.target ∈ g.ids) {stop : List Nat} {a : Nat} (ha : a ∈ g.ids)
    (h : Reach g stop a b) : b ∈ g.ids := by
  cases h with
  | start => exact ha
  | step _ hc _ =>
    obtain ⟨e, he, -, rfl⟩ := mem_successors.mp hc
    exact hg e he

/-! ## Depth-first order -/

/-- What is left of a list without the things seen. -/
def unseen {α : Type} [BEq α] (xs seen : List α) : List α := xs.filter fun x => !seen.contains x

section unseen

variable {α : Type} [BEq α] [LawfulBEq α]

theorem mem_unseen {xs seen : List α} {x : α} : x ∈ unseen xs seen ↔ x ∈ xs ∧ x ∉ seen := by simp [unseen]

theorem length_unseen_le {xs seen seen' : List α} (h : seen ⊆ seen') :
    (unseen xs seen').length ≤ (unseen xs seen).length := by
  rw [unseen, unseen, ← countP_eq_length_filter, ← countP_eq_length_filter]
  refine countP_mono_left fun x _ hx => ?_
  simp only [Bool.not_eq_true', contains_eq_mem, decide_eq_false_iff_not] at hx ⊢
  exact fun hs => hx (h hs)

theorem length_unseen_cons_lt {xs seen : List α} {x : α} (hx : x ∈ xs) (hs : x ∉ seen) :
    (unseen xs (x :: seen)).length < (unseen xs seen).length := by
  have hsplit : unseen xs (x :: seen) = (unseen xs seen).filter fun y => !(y == x) := by
    simp [unseen, filter_filter, Bool.not_or]
  rw [hsplit, length_filter_lt_length_iff_exists]
  exact ⟨x, mem_unseen.mpr ⟨hx, hs⟩, by simp⟩

end unseen

/-- What a stretch of the search adds to the blocks seen and done: `new`, each of them once and with
all its successors seen. -/
structure Finished (next : Nat → List Nat) (st st' : List Nat × List Nat) (new : List Nat) :
    Prop where
  done : st'.2 = new ++ st.2
  seen : ∀ x, x ∈ st'.1 ↔ x ∈ new ∨ x ∈ st.1
  nodup : new.Nodup
  fresh : ∀ x ∈ new, x ∉ st.1
  closed : ∀ x ∈ new, ∀ c ∈ next x, c ∈ st'.1

namespace Finished

variable {next : Nat → List Nat} {st st' st'' : List Nat × List Nat} {xs ys : List Nat}

theorem refl (st : List Nat × List Nat) : Finished next st st [] := ⟨rfl, by simp, nodup_nil, by simp, by simp⟩

theorem trans (h1 : Finished next st st' xs) (h2 : Finished next st' st'' ys) : Finished next st st'' (ys ++ xs) where
  done := by rw [h2.done, h1.done, append_assoc]
  seen x := by rw [h2.seen, h1.seen, mem_append, or_assoc]
  nodup := by
    refine nodup_append.mpr ⟨h2.nodup, h1.nodup, ?_⟩
    rintro x hy _ hx rfl
    exact h2.fresh x hy ((h1.seen x).mpr (.inl hx))
  fresh x hx hs := by
    rcases mem_append.mp hx with hx | hx
    · exact h2.fresh x hx ((h1.seen x).mpr (.inr hs))
    · exact h1.fresh x hx hs
  closed x hx c hc := by
    rcases mem_append.mp hx with hx | hx
    · exact h2.closed x hx c hc
    · exact (h2.seen c).mpr (.inr (h1.closed x hx c hc))

theorem seen_subset (h : Finished next st st' xs) : st.1 ⊆ st'.1 := fun x hx => (h.seen x).mpr (.inr hx)

/-- Once its successors are seen, a block is done. -/
theorem close {seen done seen' done' : List Nat} {n : Nat}
    (h : Finished next (n :: seen, done) (seen', done') xs) (hn : n ∉ seen)
    (hnext : ∀ c ∈ next n, c ∈ seen') : Finished next (seen, done) (seen', n :: done') (n :: xs) where
  done := by simpa using h.done
  seen x := by
    rw [h.seen x, mem_cons, mem_cons]
    tauto
  nodup := nodup_cons.mpr ⟨fun hx => h.fresh n hx mem_cons_self, h.nodup⟩
  fresh x hx hs := by
    rcases mem_cons.mp hx with rfl | hx
    · exact hn hs
    · exact h.fresh x hx (mem_cons_of_mem _ hs)
  closed x hx c hc := by
    rcases mem_cons.mp hx with rfl | hx
    · exact hnext c hc
    · exact h.closed x hx c hc

end Finished

open SecScan.Flow.Graph in
/-- The search goes one block deeper with each unit of fuel, so as many units as there are unseen
blocks are enough. -/
theorem finish_finished {next : Nat → List Nat} {ids : List Nat}
    (hids : ∀ n ∈ ids, ∀ c ∈ next n, c ∈ ids) (fuel n : Nat) (st : List Nat × List Nat)
    (hn : n ∈ ids) (hfuel : (unseen ids st.1).length ≤ fuel) :
    ∃ new ⊆ ids, Finished next st (finish next fuel n st) new ∧ n ∈ (finish next fuel n st).1 := by
  induction fuel generalizing n st with
  | zero =>
    have hnil := eq_nil_of_length_eq_zero (Nat.le_zero.mp hfuel)
    have hs : n ∈ st.1 := by
      by_contra h
      have hmem := mem_unseen.mpr ⟨hn, h⟩
      simp [hnil] at hmem
    exact ⟨[], nil_subset _, .refl st, hs⟩
  | succ fuel ih =>
    obtain ⟨seen, done⟩ := st
    simp only [finish]
    split
    · rename_i hs
      exact ⟨[], nil_subset _, .refl _, by simpa using hs⟩
    · rename_i hs
      have hs : n ∉ seen := by simpa using hs
      have hfold : ∀ (cs : List Nat) (st : List Nat × List Nat), (∀ c ∈ cs, c ∈ ids) → (unseen ids st.1).length ≤ fuel →
          ∃ new ⊆ ids, Finished next st (cs.foldl (fun st s => finish next fuel s st) st) new ∧
            ∀ c ∈ cs, c ∈ (cs.foldl (fun st s => finish next fuel s st) st).1 := by
        intro cs
        induction cs with
        | nil => exact fun st _ _ => ⟨[], nil_subset _, .refl st, by simp⟩
        | cons c cs ihc =>
          intro st hcs hlen
          obtain ⟨xs, hxs, hx, hc⟩ := ih c st (hcs c mem_cons_self) hlen
          obtain ⟨ys, hys, hy, hrest⟩ := ihc _ (fun d hd => hcs d (mem_cons_of_mem _ hd))
            (Nat.le_trans (length_unseen_le hx.seen_subset) hlen)
          refine ⟨ys ++ xs, append_subset.mpr ⟨hys, hxs⟩, hx.trans hy, fun d hd => ?_⟩
          rcases mem_cons.mp hd with rfl | hd
          · exact (hy.seen d).mpr (.inr hc)
          · exact hrest d hd
      have hlen : (unseen ids (n :: seen)).length ≤ fuel := by
        have := Nat.lt_of_lt_of_le (length_unseen_cons_lt hn hs) hfuel
        omega
      obtain ⟨new, hsub, hnew, hnext⟩ := hfold (next n) (n :: seen, done) (hids n hn) hlen
      exact ⟨n :: new, cons_subset.mpr ⟨hn, hsub⟩, hnew.close hs hnext, (hnew.seen n).mpr (.inr mem_cons_self)⟩

/-- The blocks that the whole search sees are those it lists, each once. -/
theorem finished_reversePostorder (hg : g.WellFormed) :
    ∃ seen, Finished g.successors ([], []) (seen, g.reversePostorder) g.reversePostorder ∧
      g.entry ∈ seen ∧ ∀ x ∈ g.reversePostorder, Reach g [] g.entry x := by
  let reached := g.ids.filter g.reachable.contains
  have hmem : ∀ x, x ∈ reached ↔ x ∈ g.ids ∧ Reach g [] g.entry x := by simp [reached, mem_reachable]
  have hfuel : (unseen reached []).length ≤ g.blocks.length + 1 := by
    have := length_filter_le g.reachable.contains g.ids
    simp only [unseen, contains_nil, Bool.not_false, filter_true, ids, length_map, reached] at this ⊢
    omega
  obtain ⟨new, hsub, hnew, hentry⟩ := @finish_finished g.successors reached
    (fun n hn c hc => (hmem c).mpr ⟨hg.successor_mem hc, ((hmem n).mp hn).2.step hc not_mem_nil⟩) _ g.entry ([], [])
    ((hmem _).mpr ⟨hg.entry_mem, .start not_mem_nil⟩) hfuel
  obtain rfl : new = g.reversePostorder := by simpa [reversePostorder] using hnew.done.symm
  exact ⟨_, hnew, hentry, fun x hx => ((hmem x).mp (hsub hx)).2⟩

theorem nodup_reversePostorder (hg : g.WellFormed) : g.reversePostorder.Nodup := by
  obtain ⟨_, h, -⟩ := finished_reversePostorder hg
  exact h.nodup

theorem mem_reversePostorder (hg : g.WellFormed) : b ∈ g.reversePostorder ↔ Reach g [] g.entry b := by
  obtain ⟨seen, h, hentry, hreach⟩ := finished_reversePostorder hg
  have hseen : ∀ x, x ∈ seen ↔ x ∈ g.reversePostorder := fun x => by simpa using h.seen x
  refine ⟨hreach b, fun hb => ?_⟩
  induction hb with
  | start _ => exact (hseen _).mp hentry
  | step _ hc _ ih => exact (hseen _).mp (h.closed _ ih _ hc)

end SecScan.Flow
