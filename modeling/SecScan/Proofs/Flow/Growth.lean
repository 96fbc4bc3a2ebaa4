import SecScan.Proofs.Flow.Building

/-!
What building leaves alone. A stage of building touches the block that is being filled and the blocks
it makes itself, and leads nowhere else (`Builder.Grows`). If it goes on in a block that nothing leads
out of yet, the next stage can follow (`Builder.Grown`, `Builder.Grown.trans`). A finished stage also
leads there from the block where it began (`Builder.Stage`), and every statement is one
(`Builder.Ready.stmt`). So every graph built for a node is well formed and no edge enters its entry
(`build_wellFormed`, `build_entry`), its edges are the ones that were given, and it leads from the entry to
what is not inside a nested function (`build_structured`).
-/

namespace SecScan.Flow

open Syntax List SecScan.Flow.Graph Builder

variable {s b n a c : Nat} {x : Block} {t : Nat × Scope} {σ τ : Scope}

/-! ## Items and edges of a block -/

variable (g : Graph)

theorem outEdges_addEdge_of_nil {g : Graph} (t : Nat) (l : Option Label)
    (h : g.outEdges s = []) : (g.addEdge s t l).outEdges s = [⟨s, t, l⟩] := by
  rw [outEdges_addEdge l (by simp [successors, h]), h, nil_append]

theorem itemsOf_addBlock (hx : x.items = []) (n : Nat) : (g.addBlock x).itemsOf n = g.itemsOf n := by
  simp only [itemsOf, block?, addBlock, List.find?_append]
  cases g.blocks.find? (·.id == n) with
  | some y => rfl
  | none =>
    simp only [Option.none_or, List.find?_cons]
    split <;> simp [hx]

theorem block?_addItem (b n : Nat) (i : Item) : (g.addItem b i).block? n =
    (g.block? n).map fun x => if x.id == b then { x with items := x.items ++ [i] } else x := by
  simp only [block?, addItem, List.find?_map]
  congr 2
  funext x
  simp only [Function.comp_apply]
  split <;> rfl

theorem itemsOf_addItem_of_ne (i : Item) (h : n ≠ b) : (g.addItem b i).itemsOf n = g.itemsOf n := by
  simp only [itemsOf, block?_addItem, Option.map_map]
  cases hx : g.block? n with
  | none => rfl
  | some x =>
    have hid : x.id = n := by simpa using List.find?_some hx
    simp [hid, h]

theorem itemsOf_addItem {g : Graph} (i : Item) (h : b ∈ g.ids) : (g.addItem b i).itemsOf b = g.itemsOf b ++ [i] := by
  simp only [itemsOf, block?_addItem, Option.map_map]
  cases hx : g.block? b with
  | none =>
    obtain ⟨x, hmem, hid⟩ := mem_map.mp h
    exact absurd hid (by simpa using List.find?_eq_none.mp hx x hmem)
  | some x =>
    have hid : x.id = b := by simpa using List.find?_some hx
    simp [hid]

theorem itemsOf_prefix_addItem (b n : Nat) (i : Item) : g.itemsOf n <+: (g.addItem b i).itemsOf n := by
  simp only [itemsOf, block?_addItem, Option.map_map]
  cases g.block? n with
  | none => exact prefix_refl _
  | some x =>
    simp only [Option.map_some, Option.getD_some, Function.comp_apply]
    split
    · exact prefix_append _ _
    · exact prefix_refl _

/-! ## Ways in a graph -/

theorem Reach.mono {g g' : Graph} (h : Reach g [] a c)
    (hsub : ∀ n, g.successors n ⊆ g'.successors n) : Reach g' [] a c := by
  induction h with
  | start hs => exact .start hs
  | step _ hc hs ih => exact ih.step (hsub _ hc) hs

theorem Reach.trans {g : Graph} (h1 : Reach g [] a b) (h2 : Reach g [] b c) : Reach g [] a c := by
  induction h2 with
  | start => exact h1
  | step _ hc hs ih => exact ih.step hc hs

theorem Reach.addEdge {g : Graph} {t : Nat} {l : Option Label} (h : Reach g [] a c) :
    Reach (g.addEdge s t l) [] a c := h.mono fun _ _ hc => mem_successors_addEdge (.inl hc)

theorem reach_of_outEdges {g : Graph} {es : List Edge} (h : g.outEdges a = es)
    (hc : c ∈ es.map (·.target)) : Reach g [] a c :=
  .step (.start (by simp)) (by rwa [successors, h]) (by simp)

theorem reach_addEdge (s t : Nat) (l : Option Label) : Reach (g.addEdge s t l) [] s t :=
  .step (.start (by simp)) (mem_successors_addEdge (.inr ⟨rfl, rfl⟩)) (by simp)

namespace Builder

variable (b : Builder)

@[simp] theorem itemsOf_fresh (n : Nat) : b.fresh.graph.itemsOf n = b.graph.itemsOf n := itemsOf_addBlock _ rfl n

@[simp] theorem outEdges_fresh (n : Nat) : b.fresh.graph.outEdges n = b.graph.outEdges n := rfl

@[simp] theorem tags_fresh : b.fresh.graph.tags = b.graph.tags ++ [(b.count + 1, b.scope)] := tags_addBlock _ _

theorem tag_fresh : (b.count + 1, b.scope) ∈ b.fresh.graph.tags := by simp

@[simp] theorem scope_fresh : b.fresh.scope = b.scope := rfl

@[simp] theorem count_fresh : b.fresh.count = b.count + 1 := rfl

@[simp] theorem itemsOf_edge (s t n : Nat) (l : Option Label) :
    (b.edge s t l).graph.itemsOf n = b.graph.itemsOf n := rfl

theorem outEdges_edge_of_ne {t : Nat} (l : Option Label) (h : n ≠ s) :
    (b.edge s t l).graph.outEdges n = b.graph.outEdges n := outEdges_addEdge_of_ne _ l h

theorem outEdges_edge {t : Nat} (l : Option Label) (h : t ∉ b.graph.successors s) :
    (b.edge s t l).graph.outEdges s = b.graph.outEdges s ++ [⟨s, t, l⟩] := outEdges_addEdge l h

theorem outEdges_edge_of_nil {b : Builder} (t : Nat) (l : Option Label)
    (h : b.graph.outEdges s = []) : (b.edge s t l).graph.outEdges s = [⟨s, t, l⟩] :=
  outEdges_addEdge_of_nil t l h

@[simp] theorem count_edge (s t : Nat) (l : Option Label) : (b.edge s t l).count = b.count := rfl

@[simp] theorem graph_moveTo (n : Nat) : (b.moveTo n).graph = b.graph := rfl

@[simp] theorem count_moveTo (n : Nat) : (b.moveTo n).count = b.count := rfl

@[simp] theorem current_moveTo (n : Nat) : (b.moveTo n).current = n := rfl

@[simp] theorem outEdges_add (i : Item) (n : Nat) : (b.add i).graph.outEdges n = b.graph.outEdges n := rfl

@[simp] theorem count_add (i : Item) : (b.add i).count = b.count := rfl

@[simp] theorem current_add (i : Item) : (b.add i).current = b.current := rfl

section addAll

variable (is : List Item)

theorem apply_addAll {α : Type} (f : Builder → α) (hf : ∀ b i, f (b.add i) = f b) : f (b.addAll is) = f b := by
  induction is generalizing b with
  | nil => rfl
  | cons i is ih => exact (ih (b.add i)).trans (hf b i)

@[simp] theorem tags_addAll : (b.addAll is).graph.tags = b.graph.tags :=
  b.apply_addAll is (·.graph.tags) fun b => tags_addItem b.graph b.current

@[simp] theorem count_addAll : (b.addAll is).count = b.count := b.apply_addAll is (·.count) fun _ _ => rfl

@[simp] theorem current_addAll : (b.addAll is).current = b.current := b.apply_addAll is (·.current) fun _ _ => rfl

@[simp] theorem scope_addAll : (b.addAll is).scope = b.scope := b.apply_addAll is (·.scope) fun _ _ => rfl

@[simp] theorem outEdges_addAll (n : Nat) : (b.addAll is).graph.outEdges n = b.graph.outEdges n :=
  b.apply_addAll is (·.graph.outEdges n) fun _ _ => rfl

theorem itemsOf_addAll_of_ne (h : n ≠ b.current) : (b.addAll is).graph.itemsOf n = b.graph.itemsOf n := by
  induction is generalizing b with
  | nil => rfl
  | cons i is ih => exact (ih (b.add i) h).trans (itemsOf_addItem_of_ne _ i h)

end addAll

variable {b} {b' b'' : Builder}

theorem Sound.itemsOf_addAll (h : b.Sound) (is : List Item) :
    (b.addAll is).graph.itemsOf b.current = b.graph.itemsOf b.current ++ is := by
  induction is generalizing b with
  | nil => simp [Builder.addAll]
  | cons i is ih =>
    have hadd : (b.add i).graph.itemsOf b.current = b.graph.itemsOf b.current ++ [i] := itemsOf_addItem i h.current
    have hrest := ih (h.add i)
    rw [current_add, hadd, append_assoc] at hrest
    exact hrest

/-- Nothing leads out of a block that was not made yet, and it has no items. -/
theorem Sound.outEdges_new (h : b.Sound) (hn : b.count < n) : b.graph.outEdges n = [] := by
  refine filter_eq_nil_iff.mpr fun e he heq => ?_
  have := h.le _ (h.graph.source_mem e he)
  rw [beq_iff_eq.mp heq] at this
  omega

theorem Sound.itemsOf_new (h : b.Sound) (hn : b.count < n) : b.graph.itemsOf n = [] := by
  have hnone : b.graph.block? n = none := by
    refine List.find?_eq_none.mpr fun x hx heq => ?_
    have := h.le _ (mem_map_of_mem hx)
    rw [beq_iff_eq.mp heq] at this
    omega
  simp [itemsOf, hnone]

/-- Ways stay inside or outside of nested functions. -/
theorem Sound.nested_eq (h : b.Sound) (hway : Reach b.graph [] a c)
    (ha : (a, σ) ∈ b.graph.tags) (hc : (c, τ) ∈ b.graph.tags) : τ.nested = σ.nested := by
  induction hway generalizing τ with
  | start => rw [tag_unique h.graph.nodup ha hc]
  | step _ hsucc _ ih =>
    obtain ⟨e, he, rfl, rfl⟩ := mem_successors.mp hsucc
    obtain ⟨ρ, hρ⟩ := exists_tag (h.graph.source_mem e he)
    rw [← ih hρ, h.level e he ρ τ hρ hc]

/-! ## Stages of building -/

/-- Nothing leads out of the block that is being filled. -/
structure Ready (b : Builder) : Prop extends b.Sound where
  out : b.graph.outEdges b.current = []

/-- A later stage of building. Since then only the block that was being filled and new blocks were
touched, and edges lead from these to new blocks only. -/
structure Grows (b b' : Builder) : Prop where
  start : b.Ready
  sound : b'.Sound
  entry : b'.graph.entry = b.graph.entry
  tags : b.graph.tags ⊆ b'.graph.tags
  successors : ∀ n, b.graph.successors n ⊆ b'.graph.successors n
  count : b.count ≤ b'.count
  current : b'.current = b.current ∨ b.count < b'.current
  items : ∀ n, n ≤ b.count → n ≠ b.current → b'.graph.itemsOf n = b.graph.itemsOf n
  filled : b.graph.itemsOf b.current <+: b'.graph.itemsOf b.current
  outEdges : ∀ n, n ≤ b.count → n ≠ b.current → b'.graph.outEdges n = b.graph.outEdges n
  target : ∀ n, n = b.current ∨ b.count < n → ∀ e ∈ b'.graph.outEdges n, b.count < e.target

namespace Grows

theorem refl (h : b.Ready) : b.Grows b where
  start := h
  sound := h.toSound
  entry := rfl
  tags := Subset.refl _
  successors _ := Subset.refl _
  count := Nat.le_refl _
  current := .inl rfl
  items _ _ _ := rfl
  filled := prefix_refl _
  outEdges _ _ _ := rfl
  target n hn e he := by
    rcases hn with rfl | hn
    · simp [h.out] at he
    · simp [h.outEdges_new hn] at he

theorem trans (h1 : b.Grows b') (h2 : b'.Grows b'') : b.Grows b'' := by
  have hcount := h1.count
  have hcurrent := h1.current
  have hmade := h1.start.made
  refine ⟨h1.start, h2.sound, h2.entry.trans h1.entry, List.Subset.trans h1.tags h2.tags,
    fun n => List.Subset.trans (h1.successors n) (h2.successors n), Nat.le_trans hcount h2.count, ?_,
    fun n hn hne => ?_, ?_, fun n hn hne => ?_, fun n hn e he => ?_⟩
  · have := h2.current
    omega
  · rw [h2.items n (by omega) (by omega), h1.items n hn hne]
  · by_cases hsame : b'.current = b.current
    · exact h1.filled.trans (hsame ▸ h2.filled)
    · rw [h2.items b.current (by omega) (Ne.symm hsame)]
      exact h1.filled
  · rw [h2.outEdges n (by omega) (by omega), h1.outEdges n hn hne]
  · by_cases hn' : n = b'.current ∨ b'.count < n
    · have := h2.target n hn' e he
      omega
    · rw [h2.outEdges n (by omega) (by omega)] at he
      exact h1.target n hn e he

variable (h : b.Grows b')
include h

theorem add (i : Item) : b.Grows (b'.add i) :=
  { h with
    sound := h.sound.add i
    tags := tags_addItem b'.graph b'.current i ▸ h.tags
    items := fun n hn hne => by
      have := h.current
      rw [← h.items n hn hne]
      exact itemsOf_addItem_of_ne _ i (by omega)
    filled := h.filled.trans (itemsOf_prefix_addItem _ _ _ i) }

theorem addAll (is : List Item) : b.Grows (b'.addAll is) := by
  induction is generalizing b' with
  | nil => exact h
  | cons i is ih => exact ih (h.add i)

theorem newBlock {scopes : List (String × Node)} {scope : Scope}
    (hn : n = b'.current ∨ n = b'.count + 1) (htag : (n, scope) ∈ b'.graph.tags ++ [(b'.count + 1, scope)]) :
    b.Grows (b'.newBlock scopes scope n) :=
  { h with
    sound := h.sound.newBlock htag
    tags := fun t ht => by
      rw [Builder.newBlock, tags_addBlock]
      exact mem_append_left _ (h.tags ht)
    count := Nat.le_succ_of_le h.count
    current := by
      have := h.count
      have := h.current
      show n = _ ∨ _ < n
      omega
    items := fun m hm hne => (itemsOf_addBlock _ rfl m).trans (h.items m hm hne)
    filled := by
      rw [Builder.newBlock, itemsOf_addBlock _ rfl]
      exact h.filled }

theorem fresh : b.Grows b'.fresh := h.newBlock (.inl rfl) (mem_append_left _ h.sound.tag)

theorem edge {t : Nat} (l : Option Label)
    (hs : s = b.current ∨ b.count < s) (ht : b.count < t) (hsource : (s, σ) ∈ b'.graph.tags)
    (htarget : (t, τ) ∈ b'.graph.tags) (hlevel : σ.nested = τ.nested) (hroom : b'.graph.Room s t) :
    b.Grows (b'.edge s t l) :=
  { h with
    sound := h.sound.edge l hsource htarget hlevel
      (h.entry ▸ Nat.ne_of_gt (Nat.lt_of_le_of_lt h.start.entry_le ht)) hroom
    successors := fun n _ hc => mem_successors_addEdge (.inl (h.successors n hc))
    outEdges := fun n hn hne => by
      rw [outEdges_edge_of_ne b' l (by omega), h.outEdges n hn hne]
    target := fun n hn e he => by
      obtain ⟨he, hsource⟩ := mem_filter.mp he
      rcases mem_putEdge he with rfl | he
      · exact ht
      · exact h.target n hn e (mem_filter.mpr ⟨he, hsource⟩) }

theorem moveTo (hn : n = b.current ∨ b.count < n) (htag : (n, b'.scope) ∈ b'.graph.tags) : b.Grows (b'.moveTo n) :=
  { h with
    sound := { h.sound with tag := htag }
    current := hn }

theorem back : b.Grows { b' with scope := b.scope, current := b.current } :=
  { h with
    sound := { h.sound with tag := h.tags h.start.tag }
    current := .inl rfl }

end Grows

/-- Nothing leads yet out of the block where filling goes on. -/
structure Grown (b b' : Builder) : Prop extends b.Grows b' where
  out : b'.graph.outEdges b'.current = []

/-- A finished stage of building: it leads on from the block that was being filled, in the same scope,
and to every new block that is not inside a nested function. -/
structure Stage (b b' : Builder) : Prop extends b.Grown b' where
  scope : b'.scope = b.scope
  reach : Reach b'.graph [] b.current b'.current
  covered : ∀ t ∈ b'.graph.tags, t ∈ b.graph.tags ∨ t.2.nested = true ∨ Reach b'.graph [] b.current t.1

theorem Grown.ready (h : b.Grown b') : b'.Ready := ⟨h.sound, h.out⟩

theorem Grown.trans (h1 : b.Grown b') (h2 : b'.Grown b'') : b.Grown b'' := ⟨h1.toGrows.trans h2.toGrows, h2.out⟩

theorem Stage.trans (h1 : b.Stage b') (h2 : b'.Stage b'') : b.Stage b'' := by
  have hway := h1.reach.mono h2.successors
  refine ⟨h1.toGrown.trans h2.toGrown, h2.scope.trans h1.scope, hway.trans h2.reach, fun t ht => ?_⟩
  rcases h2.covered t ht with ht | hnested | hreach
  · exact (h1.covered t ht).imp_right (Or.imp_right (·.mono h2.successors))
  · exact .inr (.inl hnested)
  · exact .inr (.inr (hway.trans hreach))

namespace Ready

variable (h : b.Ready)
include h

theorem stage_refl : b.Stage b := ⟨⟨.refl h, h.out⟩, rfl, .start (by simp), fun _ => .inl⟩

theorem advance (l : Option Label) : b.Stage (b.advance l) := by
  have hcurrent := h.made
  have hnew := Nat.lt_succ_self b.count
  have hfresh := (Grows.refl h).fresh
  have hedge := hfresh.edge l (.inl rfl) hnew (hfresh.tags h.tag) (tag_fresh b) rfl (.inl h.out)
  have hout : (b.fresh.edge b.current (b.count + 1) l).graph.outEdges (b.count + 1) = [] := by
    rw [outEdges_edge_of_ne _ l (by omega), outEdges_fresh, h.outEdges_new hnew]
  refine ⟨⟨hedge.moveTo (.inr hnew) (tag_fresh b), hout⟩, rfl, reach_addEdge .., fun t ht => ?_⟩
  rcases mem_append.mp (tags_fresh b ▸ ht) with ht | ht
  · exact .inl ht
  · rw [mem_singleton.mp ht]
    exact .inr (.inr (reach_addEdge ..))

theorem addAll (is : List Item) : b.Stage (b.addAll is) := by
  refine ⟨⟨(Grows.refl h).addAll is, ?_⟩, scope_addAll b is, ?_, fun t ht => .inl (tags_addAll b is ▸ ht)⟩
  · rw [current_addAll, outEdges_addAll, h.out]
  · rw [current_addAll]
    exact .start (by simp)

theorem alone : b.Stage (if b.currentEmpty then b else b.advance) := by
  split
  · exact h.stage_refl
  · exact h.advance none

theorem flat (s : Stmt) : b.Stage (b.flat s) := by
  unfold Builder.flat
  split
  · have hadd := h.alone.ready.addAll [.stmt s]
    exact h.alone.trans (hadd.trans (hadd.ready.advance (some .resume)))
  · exact h.addAll [.stmt s]

end Ready

/-! ## Functions -/

section function

variable {name : String} {owner : Stmt} {args : Arguments} {linked : Bool}

@[simp] theorem current_enterFunction : (b.enterFunction name owner args linked).current = b.count + 1 := by
  rw [enterFunction, current_addAll]
  cases linked <;> rfl

@[simp] theorem count_enterFunction : (b.enterFunction name owner args linked).count = b.count + 1 := by
  rw [enterFunction, count_addAll]
  cases linked <;> rfl

theorem tags_enterFunction : (b.enterFunction name owner args linked).graph.tags =
    b.graph.tags ++ [(b.count + 1, ⟨name, b.scope.nested || !linked⟩)] := by
  rw [enterFunction, tags_addAll]
  cases linked <;> exact tags_addBlock _ _

variable (h : b.Ready)

include h

theorem Ready.openFunction : b.Grown (b.openFunction name owner linked) := by
  have hcurrent := h.made
  have hnew := Nat.lt_succ_self b.count
  let scope : Scope := ⟨name, b.scope.nested || !linked⟩
  let c := b.newBlock (putField name (.stmt owner) b.graph.scopes) scope (b.count + 1)
  have htag : (b.count + 1, scope) ∈ c.graph.tags := by simp [c, newBlock]
  have hopen : b.Grows c := (Grows.refl h).newBlock (.inr rfl) (by simp)
  cases linked with
  | true =>
    have hout : (c.edge b.current (b.count + 1) (some .entry)).graph.outEdges (b.count + 1) = [] :=
      (outEdges_edge_of_ne c _ (by omega)).trans (h.outEdges_new hnew)
    exact ⟨hopen.edge _ (.inl rfl) hnew (hopen.tags h.tag) htag (by simp [scope]) (.inl h.out), hout⟩
  | false => exact ⟨hopen, h.outEdges_new hnew⟩

/-- What is filled next is the first block of the function. -/
theorem Ready.enterFunction (args : Arguments) : b.Grown (b.enterFunction name owner args linked) := by
  have hopen : b.Grown (b.openFunction name owner linked) := h.openFunction
  exact hopen.trans (hopen.ready.addAll (params args)).toGrown

variable (hbody : (b.enterFunction name owner args linked).Stage b')

include hbody

/-- The body of a function is built apart from the block that the definition stands in. -/
theorem Stage.itemsOf_function : b'.graph.itemsOf b.current = b.graph.itemsOf b.current := by
  have hcurrent := h.made
  rw [hbody.items _ (by rw [count_enterFunction]; omega) (by rw [current_enterFunction]; omega)]
  refine (itemsOf_addAll_of_ne _ _ ?_).trans ?_
  all_goals cases linked
  · exact Nat.ne_of_lt (Nat.lt_succ_of_le hcurrent)
  · exact Nat.ne_of_lt (Nat.lt_succ_of_le hcurrent)
  · exact itemsOf_addBlock _ rfl _
  · exact itemsOf_addBlock _ rfl _

theorem Stage.outEdges_function : b'.graph.outEdges b.current =
    if linked then [⟨b.current, b.count + 1, some .entry⟩] else [] := by
  have hcurrent := h.made
  rw [hbody.outEdges _ (by rw [count_enterFunction]; omega) (by rw [current_enterFunction]; omega),
    enterFunction, outEdges_addAll]
  cases linked with
  | true => exact outEdges_addEdge_of_nil _ _ h.out
  | false => exact h.out

/-- The blocks that the first block of a function leads to are nested unless the definition leads there. -/
theorem Stage.covered_function (ht : t ∈ b'.graph.tags) (hway : Reach b'.graph [] (b.count + 1) t.1) :
    t.2.nested = true ∨ Reach b'.graph [] b.current t.1 := by
  cases linked with
  | true => exact .inr ((reach_of_outEdges (hbody.outEdges_function h) (by simp)).trans hway)
  | false =>
    have hfirst := hbody.tags (tags_enterFunction ▸ mem_append_right _ mem_cons_self)
    exact .inl ((hbody.sound.nested_eq hway hfirst ht).trans (Bool.or_true _))

theorem Stage.leaveFunction : b.Stage (b'.leaveFunction b) := by
  have hgrown := (h.enterFunction args).trans hbody.toGrown
  have hcurrent := h.made
  have hcount := hbody.count
  rw [count_enterFunction] at hcount
  have hnew : b.count < b'.count + 1 := Nat.lt_succ_of_le hgrown.count
  have hback := hgrown.back
  have hroom : b'.graph.Room b.current (b'.count + 1) := by
    have hout := hbody.outEdges_function h
    cases linked with
    | true => exact .inr ⟨_, hout, Nat.ne_of_lt (Nat.lt_succ_of_le hcount)⟩
    | false => exact .inl hout
  have hedge := hback.fresh.edge (some .next) (.inl rfl) hnew (hback.fresh.tags h.tag) (tag_fresh _) rfl hroom
  have hout : (b'.leaveFunction b).graph.outEdges (b'.count + 1) = [] :=
    (outEdges_addEdge_of_ne _ _ (by omega)).trans (hbody.sound.outEdges_new (Nat.lt_succ_self _))
  refine ⟨⟨hedge.moveTo (.inr hnew) (tag_fresh _), hout⟩, rfl, reach_addEdge .., fun t ht => ?_⟩
  have hkept {c : Nat} (hway : Reach b'.graph [] b.current c) : Reach (b'.leaveFunction b).graph [] b.current c :=
    Reach.addEdge (hway.mono fun _ => Subset.refl _)
  rcases mem_append.mp (tags_fresh { b' with scope := b.scope } ▸ ht) with ht | ht
  · have hold := hbody.covered t ht
    rw [tags_enterFunction, mem_append, mem_singleton, current_enterFunction] at hold
    rcases hold with (hold | rfl) | hnested | hway
    · exact .inl hold
    · exact .inr ((hbody.covered_function h ht (.start (by simp))).imp_right hkept)
    · exact .inr (.inl hnested)
    · exact .inr ((hbody.covered_function h ht hway).imp_right hkept)
  · rw [mem_singleton.mp ht]
    exact .inr (.inr (reach_addEdge ..))

end function

/-! ## Loops -/

section loop

variable (b : Builder) (header : List Item) (enter leave : Label)

theorem count_openLoop : (b.openLoop header enter leave).count = b.count + 3 := by
  rw [openLoop, count_moveTo, count_edge, count_edge, count_fresh, count_fresh, count_addAll]
  rfl

theorem tags_openLoop : (b.openLoop header enter leave).graph.tags = b.graph.tags ++
    [(b.count + 1, b.scope), (b.count + 2, b.scope), (b.count + 3, b.scope)] := by
  have hadvance : b.advance.graph.tags = b.graph.tags ++ [(b.count + 1, b.scope)] := tags_fresh b
  have hcount : b.advance.count = b.count + 1 := rfl
  have hscope : b.advance.scope = b.scope := rfl
  show ((b.advance.addAll header).fresh.fresh).graph.tags = _
  simp [hadvance, hcount, hscope]

@[simp] theorem current_openLoop : (b.openLoop header enter leave).current = b.count + 2 := rfl

theorem outEdges_openLoop_of_ne (hcurrent : n ≠ b.current) (hheader : n ≠ b.count + 1) :
    (b.openLoop header enter leave).graph.outEdges n = b.graph.outEdges n := by
  rw [openLoop, graph_moveTo, outEdges_edge_of_ne _ _ hheader, outEdges_edge_of_ne _ _ hheader,
    outEdges_fresh, outEdges_fresh, outEdges_addAll]
  exact outEdges_edge_of_ne b.fresh none hcurrent

theorem itemsOf_openLoop_of_ne (h : n ≠ b.count + 1) :
    (b.openLoop header enter leave).graph.itemsOf n = b.graph.itemsOf n := by
  rw [openLoop, graph_moveTo, itemsOf_edge, itemsOf_edge, itemsOf_fresh, itemsOf_fresh, itemsOf_addAll_of_ne _ _ h]
  exact itemsOf_fresh b n

variable {b} (h : b.Ready)

include h

theorem Ready.outEdges_openLoop : (b.openLoop header enter leave).graph.outEdges b.current =
    [⟨b.current, b.count + 1, none⟩] := by
  have hcurrent := h.made
  rw [openLoop, graph_moveTo, outEdges_edge_of_ne _ _ (by omega), outEdges_edge_of_ne _ _ (by omega),
    outEdges_fresh, outEdges_fresh, outEdges_addAll]
  exact outEdges_addEdge_of_nil _ none h.out

theorem Ready.outEdges_unopened : (b.advance.addAll header).fresh.fresh.graph.outEdges (b.count + 1) = [] := by
  rw [outEdges_fresh, outEdges_fresh, outEdges_addAll]
  exact (h.advance none).out

theorem Ready.outEdges_enter : ((b.advance.addAll header).fresh.fresh.edge (b.count + 1) (b.count + 2)
    (some enter)).graph.outEdges (b.count + 1) = [⟨b.count + 1, b.count + 2, some enter⟩] :=
  outEdges_edge_of_nil _ _ (h.outEdges_unopened header)

theorem Ready.outEdges_header : (b.openLoop header enter leave).graph.outEdges (b.count + 1) =
    [⟨b.count + 1, b.count + 2, some enter⟩, ⟨b.count + 1, b.count + 3, some leave⟩] := by
  have henter := h.outEdges_enter header enter
  rw [openLoop, graph_moveTo, outEdges_edge _ _ (by simp [successors, henter]), henter]
  rfl

/-- The blocks of a loop are reached by way of its header. -/
theorem Ready.reach_openLoop (hn : b.count < n ∧ n ≤ b.count + 3) :
    Reach (b.openLoop header enter leave).graph [] b.current n := by
  have hheader := reach_of_outEdges (c := b.count + 1) (h.outEdges_openLoop header enter leave) (by simp)
  by_cases hfirst : n = b.count + 1
  · exact hfirst ▸ hheader
  · refine hheader.trans (reach_of_outEdges (h.outEdges_header header enter leave) ?_)
    simp only [map_cons, map_nil, mem_cons, not_mem_nil, or_false]
    omega

theorem Ready.itemsOf_header : (b.openLoop header enter leave).graph.itemsOf (b.count + 1) = header := by
  have hnew : b.advance.graph.itemsOf (b.count + 1) = [] :=
    (itemsOf_fresh b _).trans (h.itemsOf_new (Nat.lt_succ_self _))
  have hadded := (h.advance none).sound.itemsOf_addAll header
  rw [show b.advance.current = b.count + 1 from rfl, hnew, nil_append] at hadded
  rw [openLoop, graph_moveTo, itemsOf_edge, itemsOf_edge, itemsOf_fresh, itemsOf_fresh, hadded]

theorem Ready.openLoop : b.Stage (b.openLoop header enter leave) := by
  have hcurrent := h.made
  have hscope : (b.advance.addAll header).scope = b.scope := scope_addAll _ _
  refine ⟨⟨?_, ?_⟩, hscope, h.reach_openLoop header enter leave (by simp), fun t ht => ?_⟩
  · have htag : ∀ n ∈ [b.count + 1, b.count + 2, b.count + 3],
        (n, b.scope) ∈ (b.advance.addAll header).fresh.fresh.graph.tags := fun n hn => by
      refine (tags_openLoop b header enter leave).symm ▸ mem_append_right _ ?_
      simpa using hn
    have hheader := ((h.advance none).toGrows.addAll header).fresh.fresh
    have henter := hheader.edge (some enter) (.inr (Nat.lt_succ_self _)) (t := b.count + 2) (by omega)
      (htag _ (by simp)) (htag _ (by simp)) rfl (.inl (h.outEdges_unopened header))
    have hleave := henter.edge (some leave) (.inr (Nat.lt_succ_self _)) (t := b.count + 3) (by omega)
      (htag _ (by simp)) (htag _ (by simp)) rfl (.inr ⟨_, h.outEdges_enter header enter, by simp⟩)
    exact hleave.moveTo (.inr (by omega)) (hscope ▸ htag _ (by simp))
  · rw [current_openLoop, outEdges_openLoop_of_ne _ _ _ _ (by omega) (by omega)]
    exact h.outEdges_new (by omega)
  · refine (mem_append.mp (tags_openLoop b header enter leave ▸ ht)).imp_right fun ht => .inr ?_
    apply h.reach_openLoop
    simp only [mem_cons, not_mem_nil, or_false] at ht
    rcases ht with rfl | rfl | rfl <;> simp

variable {header enter leave} (hfill : (b.openLoop header enter leave).Stage b')

include hfill

/-- Going back to the header of a loop that was opened and then filled. -/
theorem Ready.closeLoop : b.Stage (b'.closeLoop b) := by
  have hcurrent := h.made
  have hcount := count_openLoop b header enter leave
  have hfilled := hfill.current
  rw [current_openLoop, hcount] at hfilled
  have htag : ∀ n ∈ [b.count + 1, b.count + 3], (n, b.scope) ∈ b'.graph.tags := fun n hn => by
    refine hfill.tags ((tags_openLoop b header enter leave).symm ▸ mem_append_right _ ?_)
    simp only [mem_cons, not_mem_nil, or_false] at hn
    rcases hn with rfl | rfl <;> simp
  have hboth := (h.openLoop header enter leave).trans hfill
  have hback := hboth.edge none (.inr (by omega)) (t := b.count + 1) (by omega) hfill.sound.tag
    (htag _ (by simp)) (by rw [hboth.scope]) (.inl hfill.out)
  refine ⟨⟨hback.moveTo (.inr (by omega)) (hboth.scope.symm ▸ htag _ (by simp)), ?_⟩, hboth.scope, ?_,
    fun t ht => (hboth.covered t ht).imp_right (Or.imp_right (·.addEdge))⟩
  · show (b'.edge b'.current (b.count + 1)).graph.outEdges (b.count + 3) = []
    rw [outEdges_edge_of_ne _ _ (by omega), hfill.outEdges _ (by omega) (by rw [current_openLoop]; omega),
      outEdges_openLoop_of_ne _ _ _ _ (by omega) (by omega)]
    exact h.outEdges_new (by omega)
  · have hleave := h.reach_openLoop header enter leave (n := b.count + 3) (by omega)
    exact (hleave.mono hfill.successors).addEdge

/-- The end of a loop's body leads to where the header leads. -/
theorem Ready.reach_closeLoop (hn : n = b.count + 2 ∨ n = b.count + 3) :
    Reach (b'.closeLoop b).graph [] b'.current n := by
  have hback := reach_addEdge b'.graph b'.current (b.count + 1) none
  have hheader := reach_of_outEdges (c := n) (h.outEdges_header header enter leave) (by simpa using hn)
  exact hback.trans (hheader.mono hfill.successors).addEdge

end loop

/-! ## Branches -/

section blocks

variable (b : Builder) (blocks : Nat)

@[simp] theorem count_repeat_fresh : (Nat.repeat Builder.fresh blocks b).count = b.count + blocks := by
  induction blocks with
  | zero => rfl
  | succ k ih => simp [Nat.repeat, ih, Nat.add_assoc]

theorem apply_repeat_fresh {α : Type} (f : Builder → α) (hf : ∀ b, f b.fresh = f b) :
    f (Nat.repeat Builder.fresh blocks b) = f b := by
  induction blocks with
  | zero => rfl
  | succ k ih => exact (hf _).trans ih

@[simp] theorem outEdges_repeat_fresh (n : Nat) :
    (Nat.repeat Builder.fresh blocks b).graph.outEdges n = b.graph.outEdges n :=
  b.apply_repeat_fresh blocks (·.graph.outEdges n) fun _ => rfl

@[simp] theorem itemsOf_repeat_fresh (n : Nat) :
    (Nat.repeat Builder.fresh blocks b).graph.itemsOf n = b.graph.itemsOf n :=
  b.apply_repeat_fresh blocks (·.graph.itemsOf n) fun b => b.itemsOf_fresh n

@[simp] theorem scope_repeat_fresh : (Nat.repeat Builder.fresh blocks b).scope = b.scope :=
  b.apply_repeat_fresh blocks (·.scope) fun _ => rfl

theorem mem_tags_repeat_fresh : t ∈ (Nat.repeat Builder.fresh blocks b).graph.tags ↔
    t ∈ b.graph.tags ∨ (b.count < t.1 ∧ t.1 ≤ b.count + blocks) ∧ t.2 = b.scope := by
  induction blocks with
  | zero => exact (or_iff_left fun h => by omega).symm
  | succ k ih =>
    obtain ⟨n, scope⟩ := t
    simp only [Nat.repeat, tags_fresh, mem_append, mem_singleton, scope_repeat_fresh, ih, count_repeat_fresh,
      Prod.mk.injEq, or_assoc, ← or_and_right]
    have hrange : b.count < n ∧ n ≤ b.count + k ∨ n = b.count + k + 1 ↔ b.count < n ∧ n ≤ b.count + (k + 1) := by omega
    rw [hrange]

variable {b}

theorem Grows.repeat_fresh (h : b.Grows b') : b.Grows (Nat.repeat Builder.fresh blocks b') := by
  induction blocks with
  | zero => exact h
  | succ k ih => exact ih.fresh

end blocks

section fork

variable (test : Expr) (blocks : Nat)

@[simp] theorem count_fork (b : Builder) : (b.fork test blocks).count = b.count + blocks := by simp [fork]

@[simp] theorem current_fork (b : Builder) : (b.fork test blocks).current = b.count + 1 := rfl

theorem outEdges_fork_of_ne (b : Builder) (h : n ≠ b.current) :
    (b.fork test blocks).graph.outEdges n = b.graph.outEdges n := by
  rw [fork, graph_moveTo, outEdges_edge_of_ne _ _ h, outEdges_repeat_fresh, outEdges_add]

theorem Ready.outEdges_fork (h : b.Ready) :
    (b.fork test blocks).graph.outEdges b.current = [⟨b.current, b.count + 1, some .true⟩] := by
  refine outEdges_edge_of_nil _ _ ?_
  rw [outEdges_repeat_fresh, outEdges_add, h.out]

theorem mem_tags_fork (b : Builder) : t ∈ (b.fork test blocks).graph.tags ↔
    t ∈ b.graph.tags ∨ (b.count < t.1 ∧ t.1 ≤ b.count + blocks) ∧ t.2 = b.scope := by
  have hadd : (b.add (.expr test)).graph.tags = b.graph.tags := tags_addItem ..
  rw [← hadd]
  exact mem_tags_repeat_fresh (b.add (.expr test)) blocks

@[simp] theorem scope_fork (b : Builder) : (b.fork test blocks).scope = b.scope :=
  scope_repeat_fresh (b.add (.expr test)) blocks

theorem Ready.fork (h : b.Ready) (hblocks : 0 < blocks) : b.Grown (b.fork test blocks) := by
  have hcurrent := h.made
  have hnew := Nat.lt_succ_self b.count
  have htag : (b.count + 1, b.scope) ∈ (b.fork test blocks).graph.tags :=
    (mem_tags_fork test blocks b).mpr (.inr ⟨⟨hnew, Nat.add_le_add_left hblocks _⟩, rfl⟩)
  have hmade := ((Grows.refl h).add (.expr test)).repeat_fresh blocks
  have hroom := (outEdges_repeat_fresh (b.add (.expr test)) blocks b.current).trans h.out
  have hedge := hmade.edge (some .true) (.inl rfl) hnew (hmade.tags h.tag) htag rfl (.inl hroom)
  refine ⟨hedge.moveTo (.inr hnew) ((scope_fork test blocks b).symm ▸ htag), ?_⟩
  rw [current_fork, outEdges_fork_of_ne _ _ _ (by omega)]
  exact h.outEdges_new hnew

theorem Ready.itemsOf_fork (h : b.Ready) : (b.fork test blocks).graph.itemsOf (b.count + 1) = [] := by
  have hcurrent := h.made
  rw [Builder.fork, graph_moveTo, itemsOf_edge, itemsOf_repeat_fresh]
  exact (itemsOf_addItem_of_ne _ _ (by omega)).trans (h.itemsOf_new (Nat.lt_succ_self _))

end fork

section turn

variable {test : Expr} {blocks : Nat}

@[simp] theorem count_turn (b' : Builder) : (b'.turn b blocks).count = b'.count := rfl

@[simp] theorem current_turn (b' : Builder) : (b'.turn b blocks).current = b.count + 2 := rfl

@[simp] theorem itemsOf_turn (b' : Builder) (n : Nat) : (b'.turn b blocks).graph.itemsOf n = b'.graph.itemsOf n := rfl

theorem outEdges_turn_of_ne (b' : Builder) (hcurrent : n ≠ b'.current) (htest : n ≠ b.current) :
    (b'.turn b blocks).graph.outEdges n = b'.graph.outEdges n := by
  rw [turn, graph_moveTo, outEdges_edge_of_ne _ _ htest, outEdges_edge_of_ne _ _ hcurrent]

theorem Ready.outEdges_turn (h : b'.Ready) (htest : b'.current ≠ b.current) :
    (b'.turn b blocks).graph.outEdges b'.current = [⟨b'.current, b.count + blocks, none⟩] := by
  rw [turn, graph_moveTo, outEdges_edge_of_ne _ _ htest, outEdges_edge_of_nil _ _ h.out]

namespace Stage

variable (h : b.Ready) (hthen : (b.fork test blocks).Stage b')

/-- The first branch ends in its first block or in a block of its own. -/
theorem current_fork (hthen : (b.fork test blocks).Stage b') :
    b'.current = b.count + 1 ∨ b.count + blocks < b'.current := by
  have hfilled := hthen.current
  rwa [Builder.current_fork, count_fork] at hfilled

theorem mem_tags_fork (hthen : (b.fork test blocks).Stage b')
    (hn : b.count < n ∧ n ≤ b.count + blocks) : (n, b'.scope) ∈ b'.graph.tags := by
  rw [hthen.scope, scope_fork]
  exact hthen.tags ((Builder.mem_tags_fork test blocks b).mpr (.inr ⟨hn, rfl⟩))

include h hthen

/-- Nothing leads out of the other blocks of a fork before they are filled. -/
theorem outEdges_pending (hlow : b.count + 1 < n) (hhigh : n ≤ b.count + blocks) : b'.graph.outEdges n = [] := by
  have hcurrent := h.made
  rw [hthen.outEdges _ (by rw [count_fork]; omega) (by rw [Builder.current_fork]; omega),
    outEdges_fork_of_ne _ _ _ (by omega)]
  exact h.outEdges_new (by omega)

/-- The other blocks of a fork are empty before they are filled. -/
theorem itemsOf_pending (hlow : b.count + 1 < n) (hhigh : n ≤ b.count + blocks) : b'.graph.itemsOf n = [] := by
  have hcurrent := h.made
  rw [hthen.items _ (by rw [count_fork]; omega) (by rw [Builder.current_fork]; omega)]
  rw [fork, graph_moveTo, itemsOf_edge, itemsOf_repeat_fresh]
  exact (itemsOf_addItem_of_ne _ _ (by omega)).trans (h.itemsOf_new (by omega))

/-- The test stands at the end of the block that was being filled. -/
theorem itemsOf_test : b'.graph.itemsOf b.current = b.graph.itemsOf b.current ++ [.expr test] := by
  have hcurrent := h.made
  rw [hthen.items _ (by rw [count_fork]; omega) (by rw [Builder.current_fork]; omega)]
  rw [fork, graph_moveTo, itemsOf_edge, itemsOf_repeat_fresh]
  exact itemsOf_addItem _ h.current

/-- Behind the first branch one edge leads out of the block of the test. -/
theorem outEdges_taken (n : Nat) : (b'.edge b'.current n).graph.outEdges b.current =
    [⟨b.current, b.count + 1, some .true⟩] := by
  have hcurrent := h.made
  have hfilled := hthen.current_fork
  rw [outEdges_edge_of_ne _ _ (by omega),
    hthen.outEdges _ (by rw [count_fork]; omega) (by rw [Builder.current_fork]; omega),
    h.outEdges_fork test blocks]

theorem outEdges_test : (b'.turn b blocks).graph.outEdges b.current =
      [⟨b.current, b.count + 1, some .true⟩, ⟨b.current, b.count + 2, some .false⟩] := by
  have hback := hthen.outEdges_taken h (b.count + blocks)
  rw [turn, graph_moveTo, outEdges_edge _ _ (by simp [successors, hback]), hback]
  rfl

variable (hblocks : 2 ≤ blocks ∧ blocks ≤ 3)

include hblocks

/-- A test leads to the first block of each branch, and the end of the first branch to the join. -/
theorem reach_turn (hn : b.count < n ∧ n ≤ b.count + blocks) : Reach (b'.turn b blocks).graph [] b.current n := by
  have hedges := hthen.outEdges_test h
  by_cases hjoin : n = b.count + blocks
  · have hfirst := reach_of_outEdges (c := b.count + 1) hedges (by simp)
    exact hjoin ▸ (hfirst.trans hthen.reach.addEdge.addEdge).trans (reach_addEdge ..).addEdge
  · refine reach_of_outEdges hedges ?_
    simp only [map_cons, map_nil, mem_cons, not_mem_nil, or_false]
    omega

/-- Going on behind the first branch of a test. -/
theorem turn : b.Stage (b'.turn b blocks) := by
  have hcurrent := h.made
  have hfilled := (h.fork test blocks (by omega)).trans hthen.toGrown
  have hscope := hthen.scope.trans (scope_fork test blocks b)
  have htag := hthen.mem_tags_fork (n := b.count + 2) (by omega)
  have hback := hfilled.edge none hfilled.current (t := b.count + blocks) (by omega) hthen.sound.tag
    (hthen.mem_tags_fork (by omega)) rfl (.inl hthen.out)
  have hturn := hback.edge (some .false) (.inl rfl) (t := b.count + 2) (by omega) (hback.tags h.tag) htag
    (by rw [hscope]) (.inr ⟨_, hthen.outEdges_taken h _, by simp⟩)
  refine ⟨⟨hturn.moveTo (.inr (by omega)) htag, ?_⟩, hscope, hthen.reach_turn h hblocks (by simp; omega),
    fun t ht => ?_⟩
  · have hmoved := hthen.current_fork
    rw [current_turn, outEdges_turn_of_ne _ (by omega) (by omega)]
    exact hthen.outEdges_pending h (by omega) (by omega)
  · rcases hthen.covered t ht with ht | hnested | hway
    · exact ((Builder.mem_tags_fork test blocks b).mp ht).imp_right fun ht => .inr (hthen.reach_turn h hblocks ht.1)
    · exact .inr (.inl hnested)
    · have hfirst := hthen.reach_turn h hblocks (n := b.count + 1) (by omega)
      exact .inr (.inr (hfirst.trans hway.addEdge.addEdge))

end Stage

theorem Stage.meet (hthen : (b.fork test 3).Stage b') (h : b.Ready) (helse : (b'.turn b 3).Stage b'') :
    b.Stage (b''.meet b) := by
  have hcurrent := h.made
  have hmoved := hthen.current_fork
  have hboth := (hthen.turn h (by omega)).trans helse
  have htag := helse.scope.symm ▸ helse.tags (hthen.mem_tags_fork (n := b.count + 3) (by omega))
  have hedge := hboth.edge none hboth.current (t := b.count + 3) (by omega) hboth.sound.tag htag rfl (.inl helse.out)
  refine ⟨⟨hedge.moveTo (.inr (by omega)) htag, ?_⟩, hboth.scope, hboth.reach.addEdge.trans (reach_addEdge ..),
    fun t ht => (hboth.covered t ht).imp_right (Or.imp_right (·.addEdge))⟩
  have hle : b.count + 3 ≤ b'.count := count_fork test 3 b ▸ hthen.count
  have hend := helse.current
  rw [current_turn, count_turn] at hend
  show (b''.edge b''.current (b.count + 3)).graph.outEdges (b.count + 3) = []
  rw [outEdges_edge_of_ne _ _ (by omega), helse.outEdges _ hle (by simp), outEdges_turn_of_ne _ (by omega) (by omega)]
  exact hthen.outEdges_pending h (by omega) (by omega)

section meet

variable {n : Nat} (helse : (b'.turn b blocks).Stage b'') (hn : n ≤ b'.count) (hne : n ≠ b.count + 2)

include helse hn hne

/-- What was made before the second branch, apart from its first block, is as it was left. -/
theorem Stage.outEdges_meet : (b''.meet b).graph.outEdges n = (b'.turn b blocks).graph.outEdges n := by
  have hend := helse.current
  rw [current_turn, count_turn] at hend
  rw [Builder.meet, graph_moveTo, outEdges_edge_of_ne _ _ (by omega), helse.outEdges n hn hne]

theorem Stage.itemsOf_meet : (b''.meet b).graph.itemsOf n = b'.graph.itemsOf n := helse.items n hn hne

end meet

end turn

/-! ## Statements -/

mutual

theorem Ready.stmt : ∀ (s : Stmt) {b : Builder}, b.Ready → b.Stage (b.stmt s)
  | .funcDef l a name args bdy ds r tc, b, h => by exact (Ready.body bdy (h.enterFunction args).ready).leaveFunction h
  | .classDef _ _ _ _ bdy _, b, h => Ready.body bdy h
  | .cond _ test thenPart [], b, h => (Ready.body thenPart (h.fork test 2 (by omega)).ready).turn h (by omega)
  | .cond _ test thenPart (s :: rest), b, h => by
    have hthen := Ready.body thenPart (h.fork test 3 (by omega)).ready
    exact hthen.meet h (Ready.body (s :: rest) (hthen.turn h (by omega)).ready)
  | .whileLoop _ test bdy _, b, h => h.closeLoop (Ready.body bdy (h.openLoop [.expr test] .true .false).ready)
  | .forLoop _ _ target iter bdy _ _, b, h =>
    h.closeLoop (Ready.body bdy (h.openLoop [.expr target, .expr iter] _ _).ready)
  | .withBlock _ isAsync items bdy _, b, h => by
    have hitems := h.addAll (withItems items)
    cases isAsync with
    | true =>
      have hin := hitems.ready.advance (some .asyncEnter)
      have hbody := Ready.body bdy hin.ready
      exact hitems.trans (hin.trans (hbody.trans (hbody.ready.advance _)))
    | false => exact hitems.trans (Ready.body bdy hitems.ready)
  | .matchOn _ _ cs, b, h => Ready.cases cs h
  | .tryBlock _ _ bdy hs orelse final, b, h => by
    have hbody := Ready.body bdy h
    have hhandlers := Ready.handlers hs hbody.ready
    have helse := Ready.body orelse hhandlers.ready
    exact hbody.trans (hhandlers.trans (helse.trans (Ready.body final helse.ready)))
  | .assign .., _, h | .augAssign .., _, h | .annAssign .., _, h | .expr .., _, h | .ret .., _, h => h.flat _
  | .delete .., _, h | .raise .., _, h | .assert .., _, h | .importNames .., _, h | .importFrom .., _, h
  | .globalNames .., _, h | .nonlocalNames .., _, h | .pass _, _, h | .breakLoop _, _, h
  | .continueLoop _, _, h => h.stage_refl

theorem Ready.body : ∀ (ss : List Stmt) {b : Builder}, b.Ready → b.Stage (b.body ss)
  | [], _, h => h.stage_refl
  | s :: ss, _, h => (Ready.stmt s h).trans (Ready.body ss (Ready.stmt s h).ready)

theorem Ready.handlers : ∀ (hs : List Handler) {b : Builder}, b.Ready → b.Stage (b.handlers hs)
  | [], _, h => h.stage_refl
  | .mk _ _ _ bdy :: hs, _, h => (Ready.body bdy h).trans (Ready.handlers hs (Ready.body bdy h).ready)

theorem Ready.cases : ∀ (cs : List MatchCase) {b : Builder}, b.Ready → b.Stage (b.cases cs)
  | [], _, h => h.stage_refl
  | .mk _ _ bdy :: cs, _, h => (Ready.body bdy h).trans (Ready.cases cs (Ready.body bdy h).ready)

end

theorem Ready.root (h : b.Ready) (n : Node) : b.Stage (b.root n) := by
  unfold Builder.root
  split
  · exact Ready.body _ h
  · exact (Ready.body _ (h.enterFunction _).ready).leaveFunction h
  · exact Ready.stmt _ h
  · exact h.stage_refl

theorem ready_start (count : Nat) (name : String) (root : Node) : (start count name root).Ready :=
  ⟨sound_start count name root, rfl⟩

theorem Sound.predecessors_entry (h : b.Sound) : b.graph.predecessors b.graph.entry = [] := by
  refine eq_nil_iff_forall_not_mem.mpr fun p hp => ?_
  obtain ⟨e, he, -, ht⟩ := mem_successors.mp (mem_predecessors.mp hp)
  exact h.entry e he ht

end Builder

theorem stage_build (count : Nat) (name : String) (n : Node) :
    (start count name n).Stage ((start count name n).root n) :=
  (ready_start count name n).root n

theorem build_wellFormed (name : String) (n : Node) : (build name n).WellFormed := (stage_build 0 name n).sound.graph

theorem build_entry (name : String) (n : Node) : (build name n).predecessors (build name n).entry = [] :=
  (stage_build 0 name n).sound.predecessors_entry

/-- The blocks that the entry leads to are those that were not made inside a nested function. -/
theorem reach_entry_iff (count : Nat) (name : String) (n : Node) (hx : x ∈ (buildFrom count name n).1.blocks) :
    Reach (buildFrom count name n).1 [] (buildFrom count name n).1.entry x.id ↔ x.scope.nested = false := by
  have hbuilt := stage_build count name n
  have htag : (x.id, x.scope) ∈ (buildFrom count name n).1.tags := mem_map_of_mem hx
  have hentry : (buildFrom count name n).1.entry = (start count name n).current := hbuilt.entry
  rw [hentry]
  constructor
  · intro hway
    exact hbuilt.sound.nested_eq hway (hbuilt.tags hbuilt.start.tag) htag
  · intro hside
    rcases hbuilt.covered _ htag with hold | hnested | hway
    · rw [(Prod.mk.inj (mem_singleton.mp hold)).1]
      exact .start (by simp)
    · exact absurd (hside.symm.trans hnested) Bool.false_ne_true
    · exact hway

/-- The graph of a node is well formed. It has the edges as they were given, each pair of blocks once; none
leads to the entry and at most two lead out of a block. The entry leads to the blocks that were not made
inside a function other than the one the graph is built for, and to no others. -/
theorem build_structured (count : Nat) (name : String) (n : Node) :
    let b := (Builder.start count name n).root n
    let g := (Graph.buildFrom count name n).1
    g.WellFormed ∧ (b.given.map fun e => (e.source, e.target)).Nodup ∧ g.edges = b.given ∧
      g.predecessors g.entry = [] ∧ (∀ x, (g.successors x).length ≤ 2) ∧
      ∀ x ∈ g.blocks, Reach g [] g.entry x.id ↔ x.scope.nested = false := by
  have hsound := (stage_build count name n).sound
  refine ⟨hsound.graph, hsound.given ▸ hsound.pairs, hsound.given, hsound.predecessors_entry, fun x => ?_,
    fun x hx => reach_entry_iff count name n hx⟩
  rw [Graph.successors, length_map]
  exact hsound.few x

end SecScan.Flow
