import SecScan.Flow.Builder
import SecScan.Proofs.Flow.Dominators
import SecScan.Proofs.Keyed

/-!
Steps of building. Every step keeps the graph well formed, fills a block of the present scope and leads
no edge to the entry. No two edges are given between the same blocks, so the graph has all of them as they
were given, and an edge stays inside or outside of nested functions (`Builder.Sound`).
-/

namespace SecScan.Flow

open Syntax List SecScan.Flow.Graph

variable {e e' : Edge} {es : List Edge} {s t n : Nat} {scope : Scope}

/-! ## Edges and blocks -/

theorem mem_putEdge (h : e' ∈ putEdge e es) : e' = e ∨ e' ∈ es := by
  induction es with
  | nil => simpa [putEdge] using h
  | cons x es ih =>
    simp only [putEdge] at h
    split at h
    · rcases mem_cons.mp h with h | h
      · exact .inl h
      · exact .inr (mem_cons_of_mem _ h)
    · rcases mem_cons.mp h with h | h
      · exact .inr (by simp [h])
      · exact (ih h).imp_right (mem_cons_of_mem _)

/-- Only the label of an edge between the same blocks is lost. -/
theorem exists_mem_putEdge (h : e' = e ∨ e' ∈ es) :
    ∃ x ∈ putEdge e es, x.source = e'.source ∧ x.target = e'.target := by
  induction es with
  | nil => exact ⟨e, by simp [putEdge], by simp_all⟩
  | cons x es ih =>
    simp only [putEdge]
    split
    · rename_i heq
      simp only [Bool.and_eq_true, beq_iff_eq] at heq
      rcases h with rfl | h
      · exact ⟨e', mem_cons_self, rfl, rfl⟩
      · rcases mem_cons.mp h with rfl | h
        · exact ⟨e, mem_cons_self, heq.1.symm, heq.2.symm⟩
        · exact ⟨e', mem_cons_of_mem _ h, rfl, rfl⟩
    · by_cases hx : e' = x
      · exact ⟨x, mem_cons_self, by rw [hx], by rw [hx]⟩
      · obtain ⟨y, hy, hs⟩ := ih (h.imp_right fun h => (mem_cons.mp h).resolve_left hx)
        exact ⟨y, mem_cons_of_mem _ hy, hs⟩

theorem mem_successors_addEdge {g : Graph} {c : Nat} {l : Option Label}
    (h : c ∈ g.successors n ∨ (n = s ∧ c = t)) : c ∈ (g.addEdge s t l).successors n := by
  have hedge : ∃ e : Edge, (e = ⟨s, t, l⟩ ∨ e ∈ g.edges) ∧ e.source = n ∧ e.target = c := by
    rcases h with h | ⟨rfl, rfl⟩
    · obtain ⟨e, he, hs, ht⟩ := mem_successors.mp h
      exact ⟨e, .inr he, hs, ht⟩
    · exact ⟨_, .inl rfl, rfl, rfl⟩
  obtain ⟨e, he, rfl, rfl⟩ := hedge
  exact mem_successors.mpr (exists_mem_putEdge he)

/-- A block has at most one edge, and none to this target. -/
def Graph.Room (g : Graph) (s t : Nat) : Prop := g.outEdges s = [] ∨ ∃ e, g.outEdges s = [e] ∧ e.target ≠ t

namespace Graph.Room

variable {g : Graph} {s t : Nat} (h : g.Room s t)

include h

theorem not_mem : t ∉ g.successors s := by
  rcases h with h | ⟨e, h, hne⟩
  · simp [successors, h]
  · simpa [successors, h] using Ne.symm hne

theorem few : (g.outEdges s).length ≤ 1 := by
  rcases h with h | ⟨e, h, -⟩
  · simp [h]
  · simp [h]

end Graph.Room

theorem edges_addEdge {g : Graph} (l : Option Label) (h : t ∉ g.successors s) :
    (g.addEdge s t l).edges = g.edges ++ [⟨s, t, l⟩] := by
  have hnone : ∀ e ∈ g.edges, e.source = s → e.target ≠ t := fun e he hs ht =>
    h (mem_successors.mpr ⟨e, he, hs, ht⟩)
  show putEdge ⟨s, t, l⟩ g.edges = _
  generalize g.edges = es at hnone
  induction es with
  | nil => rfl
  | cons e es ih =>
    have hne : ¬ (e.source == s && e.target == t) := by simpa using hnone e mem_cons_self
    rw [putEdge, if_neg hne, ih fun x hx => hnone x (mem_cons_of_mem _ hx), cons_append]

theorem outEdges_addEdge {g : Graph} (l : Option Label) (h : t ∉ g.successors s) :
    (g.addEdge s t l).outEdges s = g.outEdges s ++ [⟨s, t, l⟩] := by
  simp [outEdges, edges_addEdge l h]

theorem outEdges_addEdge_of_ne (g : Graph) (l : Option Label) (h : n ≠ s) :
    (g.addEdge s t l).outEdges n = g.outEdges n := by
  simp only [outEdges, addEdge]
  induction g.edges with
  | nil => simp [putEdge, Ne.symm h]
  | cons e es ih =>
    simp only [putEdge]
    split
    · rename_i heq
      simp only [Bool.and_eq_true, beq_iff_eq] at heq
      simp [heq.1, Ne.symm h]
    · simp [filter_cons, ih]

def Graph.tags (g : Graph) : List (Nat × Scope) := g.blocks.map fun x => (x.id, x.scope)

variable (g : Graph)

theorem ids_eq : g.ids = g.tags.map (·.1) := by simp [ids, tags]

theorem mem_ids_of_tags {g : Graph} (h : (n, scope) ∈ g.tags) : n ∈ g.ids :=
  ids_eq g ▸ mem_map_of_mem (f := (·.1)) h

theorem exists_tag {g : Graph} (h : n ∈ g.ids) : ∃ scope, (n, scope) ∈ g.tags := by
  obtain ⟨x, hx, rfl⟩ := mem_map.mp h
  exact ⟨x.scope, mem_map_of_mem hx⟩

theorem tag_unique {g : Graph} (hg : g.ids.Nodup) {s s' : Scope} (h : (n, s) ∈ g.tags)
    (h' : (n, s') ∈ g.tags) : s = s' :=
  (Prod.mk.inj (inj_on_of_nodup_map (ids_eq g ▸ hg) h h' rfl)).2

@[simp] theorem tags_addItem (b : Nat) (i : Item) : (g.addItem b i).tags = g.tags := by
  simp only [addItem, tags, map_map]
  refine map_congr_left fun x _ => ?_
  simp only [Function.comp_apply]
  split <;> rfl

@[simp] theorem ids_addItem (b : Nat) (i : Item) : (g.addItem b i).ids = g.ids := by simp [ids_eq]

@[simp] theorem tags_addBlock (b : Block) : (g.addBlock b).tags = g.tags ++ [(b.id, b.scope)] := by
  simp [addBlock, tags]

namespace Builder

/-! ## What building keeps -/

/-- The graph so far is well formed, its ids were counted, the block being filled is one of the present
scope and no edge enters the entry. Every edge was given once, at most two lead out of a block, and none
into a nested function or out of it. -/
structure Sound (b : Builder) : Prop where
  graph : b.graph.WellFormed
  le : ∀ n ∈ b.graph.ids, n ≤ b.count
  sized : b.graph.entry + b.graph.blocks.length = b.count + 1
  tag : (b.current, b.scope) ∈ b.graph.tags
  entry : ∀ e ∈ b.graph.edges, e.target ≠ b.graph.entry
  given : b.graph.edges = b.given
  pairs : (b.graph.edges.map fun e => (e.source, e.target)).Nodup
  few : ∀ n, (b.graph.outEdges n).length ≤ 2
  level : ∀ e ∈ b.graph.edges, ∀ s t, (e.source, s) ∈ b.graph.tags → (e.target, t) ∈ b.graph.tags →
    s.nested = t.nested

variable {b b' : Builder}

namespace Sound

variable (h : b.Sound)
include h

theorem current : b.current ∈ b.graph.ids := mem_ids_of_tags h.tag

theorem made : b.current ≤ b.count := h.le _ h.current

theorem entry_le : b.graph.entry ≤ b.count := h.le _ h.graph.entry_mem

theorem newBlock {scopes : List (String × Node)} {current : Nat}
    (htag : (current, scope) ∈ b.graph.tags ++ [(b.count + 1, scope)]) : (b.newBlock scopes scope current).Sound := by
  have htags : (b.newBlock scopes scope current).graph.tags = b.graph.tags ++ [(b.count + 1, scope)] :=
    tags_addBlock _ _
  have hids : (b.newBlock scopes scope current).graph.ids = b.graph.ids ++ [b.count + 1] := by
    simp [ids_eq, htags]
  have hsub : b.graph.ids ⊆ (b.newBlock scopes scope current).graph.ids := hids ▸ subset_append_left _ _
  have hnew : b.count + 1 ∉ b.graph.ids := fun hn => absurd (h.le _ hn) (by omega)
  have hold : ∀ {n : Nat} {s : Scope}, n ∈ b.graph.ids →
      (n, s) ∈ (b.newBlock scopes scope current).graph.tags → (n, s) ∈ b.graph.tags := by
    intro n s hn htag
    rw [htags, mem_append, mem_singleton] at htag
    exact htag.resolve_right fun heq => hnew ((Prod.mk.inj heq).1 ▸ hn)
  exact
    { graph :=
        { nodup := hids ▸ nodup_concat h.graph.nodup hnew
          entry_mem := hsub h.graph.entry_mem
          source_mem := fun e he => hsub (h.graph.source_mem e he)
          target_mem := fun e he => hsub (h.graph.target_mem e he) }
      le := fun n hn => by
        rw [hids, mem_append, mem_singleton] at hn
        rcases hn with hn | rfl
        · exact Nat.le_succ_of_le (h.le n hn)
        · exact Nat.le_refl _
      sized := by
        have hold := h.sized
        show b.graph.entry + (b.graph.blocks ++ [_]).length = b.count + 1 + 1
        rw [length_append, ← Nat.add_assoc, hold]
        rfl
      tag := htags ▸ htag
      entry := h.entry
      given := h.given
      pairs := h.pairs
      few := h.few
      level := fun e he s t hs ht =>
        h.level e he s t (hold (h.graph.source_mem e he) hs) (hold (h.graph.target_mem e he) ht) }

theorem edge {σ τ : Scope} (l : Option Label) (hs : (s, σ) ∈ b.graph.tags)
    (ht : (t, τ) ∈ b.graph.tags) (hlevel : σ.nested = τ.nested) (hentry : t ≠ b.graph.entry)
    (hroom : b.graph.Room s t) : (b.edge s t l).Sound := by
  have hedges : (b.edge s t l).graph.edges = b.graph.edges ++ [⟨s, t, l⟩] := edges_addEdge l hroom.not_mem
  have hall : ∀ {P : Edge → Prop}, (∀ e ∈ b.graph.edges, P e) → P ⟨s, t, l⟩ →
      ∀ e ∈ (b.edge s t l).graph.edges, P e := by
    intro P hold hnew e he
    rw [hedges, mem_append, mem_singleton] at he
    rcases he with he | rfl
    · exact hold e he
    · exact hnew
  exact
    { graph :=
        { nodup := h.graph.nodup
          entry_mem := h.graph.entry_mem
          source_mem := hall h.graph.source_mem (mem_ids_of_tags hs)
          target_mem := hall h.graph.target_mem (mem_ids_of_tags ht) }
      le := h.le
      sized := h.sized
      tag := h.tag
      entry := hall h.entry hentry
      given := hedges.trans (congrArg (· ++ _) h.given)
      pairs := by
        rw [hedges, map_append]
        refine nodup_concat h.pairs fun hmem => hroom.not_mem ?_
        obtain ⟨e, he, heq⟩ := mem_map.mp hmem
        obtain ⟨hsource, htarget⟩ := Prod.mk.inj heq
        exact mem_successors.mpr ⟨e, he, hsource, htarget⟩
      few := fun n => by
        show ((b.graph.addEdge s t l).outEdges n).length ≤ 2
        by_cases hn : n = s
        · rw [hn, outEdges_addEdge l hroom.not_mem, length_append]
          exact Nat.succ_le_succ hroom.few
        · rw [outEdges_addEdge_of_ne _ l hn]
          exact h.few n
      level := hall h.level fun σ' τ' hs' ht' => by
        rw [tag_unique h.graph.nodup hs' hs, tag_unique h.graph.nodup ht' ht, hlevel] }

theorem add (i : Item) : (b.add i).Sound := by
  have htags : (b.add i).graph.tags = b.graph.tags := tags_addItem ..
  have hids : (b.add i).graph.ids = b.graph.ids := ids_addItem ..
  exact
    { graph :=
        { nodup := hids ▸ h.graph.nodup
          entry_mem := hids ▸ h.graph.entry_mem
          source_mem := hids ▸ h.graph.source_mem
          target_mem := hids ▸ h.graph.target_mem }
      le := hids ▸ h.le
      sized := (congrArg _ (length_map _)).trans h.sized
      tag := htags ▸ h.tag
      entry := h.entry
      given := h.given
      pairs := h.pairs
      few := h.few
      level := htags ▸ h.level }

end Sound

theorem sound_start (count : Nat) (name : String) (root : Node) : (start count name root).Sound where
  graph :=
    { nodup := nodup_singleton _
      entry_mem := mem_singleton.mpr rfl
      source_mem := fun _ he => absurd he not_mem_nil
      target_mem := fun _ he => absurd he not_mem_nil }
  le := fun _ hn => Nat.le_of_eq (mem_singleton.mp hn)
  sized := rfl
  tag := mem_singleton.mpr rfl
  entry := fun _ he => absurd he not_mem_nil
  given := rfl
  pairs := nodup_nil
  few := fun _ => Nat.zero_le _
  level := fun _ he => absurd he not_mem_nil

end Builder

end SecScan.Flow
