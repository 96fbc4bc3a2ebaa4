import SecScan.Ir.Parse
import SecScan.Proofs.Ir.Lowering

/-!
References in a program graph. The passes that follow the making of a graph only mark its nodes: they
enter texts under two keys of their own (`Node.Marks`). Naming the nodes is then injective, as a name
ends in the node's number. So the finished graph shows a sound draft under other names
(`parse_shows`).

In the finished graph of a module the nodes have distinct names, the module's node comes first and
alone has no parent, every other node stands after its parent, whatever an edge, an entry or a symbol
refers to is a node, the statements listed in a body or a block stand directly below it and are listed
once, and a scope has one symbol of a name (`parse_referential`). Its nodes of imports are those of the imports of the
module (`mem_rows_parse`).
-/

namespace SecScan.Ir

open List
open Syntax (Module)

variable {g : Graph Nat} {n n' : Node Nat} {d : Draft} {s : Settings} {file : String} {m : Module}
variable (nodes : Array (Node Nat)) {i : Nat} {yaml : String → Embedded.YamlResult}

/-! ## Marking -/

structure Node.Marks (n n' : Node Nat) : Prop where
  id : n'.id = n.id
  kind : n'.kind = n.kind
  span : n'.span = n.span
  parent : n'.parent = n.parent
  attr : ∀ k, k ≠ "resolved_callee" → k ≠ "tags" → n'.attr? k = n.attr? k
  refs : ∀ r ∈ n'.refs, r ∈ n.refs

namespace Node.Marks

variable {n n' n'' : Node Nat}

theorem refl (n : Node Nat) : n.Marks n := ⟨rfl, rfl, rfl, rfl, fun _ _ _ => rfl, fun _ h => h⟩

theorem trans (h : n.Marks n') (h' : n'.Marks n'') : n.Marks n'' where
  id := h'.id.trans h.id
  kind := h'.kind.trans h.kind
  span := h'.span.trans h.span
  parent := h'.parent.trans h.parent
  attr k hk hk' := (h'.attr k hk hk').trans (h.attr k hk hk')
  refs r hr := h.refs r (h'.refs r hr)

theorem setAttr {k : String} {a : Attr Nat} (hk : k = "resolved_callee" ∨ k = "tags")
    (ha : a.refs = []) : n.Marks (n.setAttr k a) where
  id := rfl
  kind := rfl
  span := rfl
  parent := rfl
  attr k' hcallee htags := by
    have hne : k' ≠ k := by
      rintro rfl
      exact hk.elim hcallee htags
    rw [attr?_setAttr, if_neg hne]
  refs r hr := by
    rcases mem_refs_setAttr hr with hr | hr
    · simp [ha] at hr
    · exact hr

theorem addTags (tags : List String) : n.Marks (n.addTags tags) := setAttr (.inr rfl) rfl

end Node.Marks

variable (scopes : Scopes)

theorem marks_markNode (n : Node Nat) : n.Marks (markNode nodes scopes n) := by
  unfold markNode
  split
  · exact .refl n
  · dsimp only
    split
    · exact (Node.Marks.setAttr (.inl rfl) rfl).trans (.addTags _)
    · exact .refl n

theorem marks_tagDynamicNode (n : Node Nat) : n.Marks (tagDynamicNode nodes n) := by
  unfold tagDynamicNode
  split
  · exact .addTags _
  · split
    · exact .refl n
    · split
      · exact .addTags _
      · split
        · exact .addTags _
        · exact .refl n

theorem length_resolveFrom (l : List (Node Nat)) : (resolveFrom nodes scopes l).length = l.length := by
  induction l generalizing scopes with
  | nil => rfl
  | cons n l ih => simp [resolveFrom, ih]

/-- A node is marked under what the nodes before it tell. -/
theorem getElem?_resolveFrom (l : List (Node Nat)) (i : Nat) : (resolveFrom nodes scopes l)[i]? =
    l[i]?.map (markNode nodes ((l.take i).foldl (learnNode nodes) scopes)) := by
  induction l generalizing scopes i with
  | nil => rfl
  | cons n l ih =>
    cases i with
    | zero => rfl
    | succ i => exact ih _ i

structure Graph.Marks (g g' : Graph Nat) : Prop where
  length : g'.nodes.length = g.nodes.length
  node : ∀ {i : Nat} {n : Node Nat}, g.nodes[i]? = some n → ∃ n', g'.nodes[i]? = some n' ∧ n.Marks n'
  edges : g'.edges = g.edges
  symbols : g'.symbols = g.symbols

namespace Graph

theorem Marks.refl (g : Graph Nat) : g.Marks g := ⟨rfl, fun {_ n} hn => ⟨n, hn, .refl n⟩, rfl, rfl⟩

theorem Marks.trans {g' g'' : Graph Nat} (h : g.Marks g') (h' : g'.Marks g'') : g.Marks g'' where
  length := h'.length.trans h.length
  node hn := by
    obtain ⟨n', hn', hmarks⟩ := h.node hn
    obtain ⟨n'', hn'', hmarks'⟩ := h'.node hn'
    exact ⟨n'', hn'', hmarks.trans hmarks'⟩
  edges := h'.edges.trans h.edges
  symbols := h'.symbols.trans h.symbols

theorem marks_resolveAliases (g : Graph Nat) : g.Marks g.resolveAliases := by
  refine ⟨length_resolveFrom _ _ _, fun {i n} hn => ?_, rfl, rfl⟩
  have heq := getElem?_resolveFrom g.nodes.toArray [] g.nodes i
  rw [hn] at heq
  exact ⟨_, heq, marks_markNode g.nodes.toArray _ n⟩

theorem marks_tagDynamic (g : Graph Nat) : g.Marks g.tagDynamic := by
  refine ⟨by simp [tagDynamic], fun {i n} hn => ?_, rfl, rfl⟩
  exact ⟨_, by simp [tagDynamic, hn], marks_tagDynamicNode g.nodes.toArray n⟩

end Graph

/-! ## Naming -/

section map

variable {ρ σ : Type} (f : ρ → σ)

theorem Cell.refs_map (c : Cell ρ) : (c.map f).refs = c.refs.map f := by
  cases c with
  | data v => rfl
  | node id => cases id <;> rfl
  | nodes ids => simp [Cell.map, Cell.refs, filterMap_map, map_filterMap]

theorem Attr.refs_map (a : Attr ρ) : (a.map f).refs = a.refs.map f := by
  cases a with
  | cell c => exact c.refs_map f
  | rows rows => simp [Attr.map, Attr.refs, flatMap_map, map_flatMap, Cell.refs_map]

variable (n : Node ρ)

theorem Node.attr?_map (k : String) : (n.map f).attr? k = (n.attr? k).map (Attr.map f) :=
  lookup_map (Attr.map f) k n.attrs

theorem Node.refsAt_map (k : String) : (n.map f).refsAt k = (n.refsAt k).map f := by
  unfold refsAt
  rw [attr?_map]
  cases n.attr? k with
  | none => rfl
  | some a => exact a.refs_map f

theorem Node.refs_map : (n.map f).refs = n.refs.map f := by
  simp [Node.refs, Node.map, flatMap_map, map_flatMap, Attr.refs_map]

theorem Node.bodyName_map : (n.map f).bodyName = n.bodyName := by
  have htext : (n.map f).text? "name" = n.text? "name" := by
    unfold text?
    rw [attr?_map]
    match n.attr? "name" with
    | none | some (.rows _) | some (.cell (.data _)) | some (.cell (.node _))
    | some (.cell (.nodes _)) => rfl
  unfold bodyName
  rw [htext]
  rfl

end map

/-- The node at a place as it stands in the finished graph. -/
structure Node.Shows (f : Nat → String) (i : Nat) (n : Node Nat) (n' : Node String) : Prop where
  id : n'.id = f i
  kind : n'.kind = n.kind
  parent : n'.parent = n.parent.map f
  bodyName : n'.bodyName = n.bodyName
  listed : n'.listed = n.listed.map f
  refs : ∀ r ∈ n'.refs, ∃ x ∈ n.refs, f x = r

theorem Node.Marks.shows (h : n.Marks n') (f : Nat → String) : n.Shows f n.id (n'.map f) := by
  have hat : ∀ k, k ≠ "resolved_callee" → k ≠ "tags" → n'.refsAt k = n.refsAt k := by
    intro k hk hk'
    unfold refsAt
    rw [h.attr k hk hk']
  refine ⟨congrArg f h.id, h.kind, congrArg (·.map f) h.parent, ?_, ?_, ?_⟩
  · rw [bodyName_map]
    unfold bodyName text?
    rw [h.kind, h.attr "name" (by decide) (by decide)]
  · unfold listed
    rw [refsAt_map, refsAt_map, hat "body_ids" (by decide) (by decide),
      hat "stmt_ids" (by decide) (by decide), map_append]
  · intro r hr
    rw [refs_map] at hr
    obtain ⟨x, hx, rfl⟩ := mem_map.mp hr
    exact ⟨x, h.refs x hx, rfl⟩

/-- The finished graph of a draft, with the names of its nodes. -/
structure Draft.Shows (d : Draft) (f : Nat → String) (g : Graph String) : Prop where
  length : g.nodes.length = d.nodes.size
  node : ∀ {i : Nat} {n : Node Nat}, d.nodes[i]? = some n → ∃ n', g.nodes[i]? = some n' ∧ n.Shows f i n'
  edges : g.edges = d.edges.toList.map (·.map f)
  symbols : g.symbols = d.symbols.toList.map (·.map f)
  inj : ∀ {i j : Nat}, i < d.nodes.size → j < d.nodes.size → f i = f j → i = j

theorem nodeName_inj (h : nodeName n = nodeName n') : n.id = n'.id := (numbered_inj rfl rfl h).2

def Draft.graph (d : Draft) : Graph Nat :=
  { nodes := d.nodes.toList, edges := d.edges.toList, symbols := d.symbols.toList }

theorem Draft.Sound.shows (h : d.Sound) (hg : d.graph.Marks g) : ∃ f, d.Shows f g.named := by
  let f : Nat → String := fun i => (g.nodes.map nodeName).toArray.getD i ""
  -- a node's name is made from the node itself, whose number is its place
  have hname : ∀ i, i < d.nodes.size → ∃ n' : Node Nat, n'.id = i ∧ f i = nodeName n' := by
    intro i hi
    have hn : d.nodes[i]? = some d.nodes[i] := Array.getElem?_eq_getElem hi
    obtain ⟨n', hn', hmarks⟩ := hg.node (show d.graph.nodes[i]? = some d.nodes[i] by simp [graph, hi])
    exact ⟨n', hmarks.id.trans (h.node hn).id, by simp [f, Array.getD_eq_getD_getElem?, hn']⟩
  refine ⟨f, ?_, ?_, ?_, ?_, ?_⟩
  · simp [Graph.named, Graph.map, hg.length, graph]
  · intro i n hn
    obtain ⟨n', hn', hmarks⟩ := hg.node (show d.graph.nodes[i]? = some n by simpa [graph] using hn)
    exact ⟨n'.map f, by simp [Graph.named, Graph.map, hn', f], (h.node hn).id ▸ hmarks.shows f⟩
  · exact congrArg (map (Edge.map f)) hg.edges
  · exact congrArg (map (Symbol.map f)) hg.symbols
  · intro i j hi hj heq
    obtain ⟨n, hn, hfi⟩ := hname i hi
    obtain ⟨n', hn', hfj⟩ := hname j hj
    have hid := nodeName_inj (hfi.symm.trans (heq.trans hfj))
    rwa [hn, hn'] at hid

theorem finish_graph (h : d.finish = .ok g) : g = d.graph := by
  unfold Draft.finish at h
  split at h
  · cases h
  · exact (Except.ok.inj h).symm

/-- The module whose graph is made. -/
abbrev Settings.prepared (s : Settings) (m : Module) : Module := if s.stripDocstrings then m.stripDocstrings else m

/-- A finished graph is that of a draft with marks at its nodes. -/
theorem parse_marks
    {g : Graph String} (h : parse s yaml file m = .ok g) : ∃ (env : Env) (g' : Graph Nat), env.file = file
      ∧ env.scope = "scope:module" ∧ env.loop = none
      ∧ ((lowerModule env (s.prepared m)).run {}).2.graph.Marks g'
      ∧ g = g'.named := by
  unfold parse at h
  dsimp only at h
  rw [← Settings.prepared] at h
  generalize s.prepared m = m at h
  let env : Env := { file, literalLimit := s.literalLimit, detect := detectLanguage yaml }
  cases hmake : Graph.ofModule env m with
  | error f =>
    rw [hmake] at h
    cases h
  | ok g₀ =>
    rw [hmake] at h
    obtain rfl := finish_graph hmake
    obtain rfl := Except.ok.inj h
    refine ⟨env, _, rfl, rfl, rfl, ?_, rfl⟩
    generalize ((lowerModule env m).run {}).2 = d
    have haliases : d.graph.Marks (if s.aliases = true then d.graph.resolveAliases else d.graph) := by
      split
      · exact Graph.marks_resolveAliases _
      · exact .refl _
    generalize (if s.aliases = true then d.graph.resolveAliases else d.graph) = g₁ at haliases
    have hdynamic : g₁.Marks (if s.dynamic = true then g₁.tagDynamic else g₁) := by
      split
      · exact Graph.marks_tagDynamic _
      · exact .refl _
    exact haliases.trans hdynamic

/-- A finished graph shows a sound draft, which has a node. -/
theorem parse_shows {g : Graph String} (h : parse s yaml file m = .ok g) :
    ∃ (d : Draft) (f : Nat → String), d.Sound ∧ 0 < d.nodes.size ∧ d.Shows f g := by
  obtain ⟨env, g', -, hscope, hloop, hmarks, rfl⟩ := parse_marks h
  obtain ⟨hsteps, hsome, -⟩ := makes_module env hscope hloop (s.prepared m)
  have hsound := hsteps.sound Draft.sound_empty
  obtain ⟨f, hf⟩ := hsound.shows hmarks
  exact ⟨_, f, hsound, hsome, hf⟩

/-- What holds of the graph of a module, if it has one, by evaluation. -/
theorem exists_ok {ε α : Type} {r : Except ε α} {P : α → Prop} (h : ∃ a ∈ r.toOption, P a) : ∃ a, r = .ok a ∧ P a := by
  obtain ⟨a, ha, hP⟩ := h
  cases r with
  | error f => simp [Except.toOption] at ha
  | ok b =>
    obtain rfl : b = a := by simpa [Except.toOption] using ha
    exact ⟨b, rfl, hP⟩

/-! ## Referential soundness -/

namespace Graph

variable {ρ : Type}

def Has (g : Graph ρ) (r : ρ) : Prop := ∃ n ∈ g.nodes, n.id = r

/-- All references of a graph are to its nodes, and nodes and symbols are told apart. -/
structure Referential (g : Graph ρ) : Prop where
  distinct : (g.nodes.map (·.id)).Nodup
  root : ∃ n, g.nodes[0]? = some n ∧ n.kind = "Module" ∧ n.parent = none
  /-- The parent of every node but the first occurs before it. -/
  parent : ∀ {i : Nat} {n : Node ρ}, g.nodes[i]? = some n → i ≠ 0 →
    ∃ j m, j < i ∧ g.nodes[j]? = some m ∧ n.parent = some m.id
  edge : ∀ e ∈ g.edges, g.Has e.source ∧ g.Has e.target ∧ ∀ x ∈ e.guard, g.Has x
  attr : ∀ n ∈ g.nodes, ∀ r ∈ n.refs, g.Has r
  symbol : ∀ s ∈ g.symbols, ∀ r ∈ s.defs ++ s.uses, g.Has r
  /-- The statements that are listed in a node stand directly below it. -/
  child : ∀ n ∈ g.nodes, ∀ r ∈ n.listed, ∃ m ∈ g.nodes, m.id = r ∧ m.parent = some n.id
  /-- No node is listed twice, in one list or in two. -/
  once : (g.nodes.flatMap Node.listed).Nodup
  keys : (g.symbols.map fun s => (s.scope, s.name)).Nodup

/-- Lists are disjoint, as what is listed has one parent. -/
theorem nodup_listed {g : Graph ρ} (hdistinct : (g.nodes.map (·.id)).Nodup) (hnodup : ∀ n ∈ g.nodes, n.listed.Nodup)
    (hchild : ∀ n ∈ g.nodes, ∀ r ∈ n.listed, ∃ m ∈ g.nodes, m.id = r ∧ m.parent = some n.id) :
    (g.nodes.flatMap Node.listed).Nodup := by
  refine pairwise_flatMap.mpr ⟨hnodup, ?_⟩
  refine (pairwise_map.mp hdistinct).imp_of_mem ?_
  rintro n n' hn hn' hne r hr _ hr' rfl
  obtain ⟨m, hm, hid, hparent⟩ := hchild n hn r hr
  obtain ⟨m', hm', hid', hparent'⟩ := hchild n' hn' r hr'
  obtain rfl := inj_on_of_nodup_map hdistinct hm hm' (hid.trans hid'.symm)
  exact hne (Option.some.inj (hparent.symm.trans hparent'))

end Graph

/-! ## The finished graph of a sound draft -/

namespace Draft.Shows

variable {n' : Node String}
variable {d : Draft} {f : Nat → String} {g : Graph String} (h : d.Shows f g)
include h

theorem has (hi : i < d.nodes.size) : g.Has (f i) := by
  obtain ⟨n', hn', hshows⟩ := h.node (Array.getElem?_eq_getElem hi)
  exact ⟨n', mem_of_getElem? hn', hshows.id⟩

theorem origin (hn' : g.nodes[i]? = some n') : ∃ n, d.nodes[i]? = some n ∧ n.Shows f i n' := by
  have hi : i < d.nodes.size := h.length ▸ (List.getElem?_eq_some_iff.mp hn').1
  have hn : d.nodes[i]? = some d.nodes[i] := Array.getElem?_eq_getElem hi
  obtain ⟨n'', hn'', hshows⟩ := h.node hn
  obtain rfl : n'' = n' := Option.some.inj (hn''.symm.trans hn')
  exact ⟨_, hn, hshows⟩

theorem origin_of_mem (hn' : n' ∈ g.nodes) : ∃ (i : Nat) (n : Node Nat), d.nodes[i]? = some n ∧ n.Shows f i n' := by
  obtain ⟨i, hi⟩ := mem_iff_getElem?.mp hn'
  obtain ⟨n, hn⟩ := h.origin hi
  exact ⟨i, n, hn⟩

theorem distinct : (g.nodes.map (·.id)).Nodup := by
  have hids : g.nodes.map (·.id) = (range d.nodes.size).map f := by
    refine ext_getElem? fun i => ?_
    rw [getElem?_map, getElem?_map, ← h.length]
    cases hn' : g.nodes[i]? with
    | none => simp [getElem?_eq_none_iff.mp hn']
    | some n' =>
      obtain ⟨n, -, hshows⟩ := h.origin hn'
      have hi := (List.getElem?_eq_some_iff.mp hn').1
      simp [hi, hshows.id]
  rw [hids]
  refine nodup_range.map_on fun i hi j hj heq => ?_
  exact h.inj (mem_range.mp hi) (mem_range.mp hj) heq

variable (hd : d.Sound)
include hd

theorem root (hsome : 0 < d.nodes.size) : ∃ n, g.nodes[0]? = some n ∧ n.kind = "Module" ∧ n.parent = none := by
  have hn : d.nodes[0]? = some d.nodes[0] := Array.getElem?_eq_getElem hsome
  obtain ⟨n', hn', hshows⟩ := h.node hn
  have hparent : d.nodes[0].parent = none := Option.eq_none_iff_forall_ne_some.mpr fun p hp =>
    Nat.not_lt_zero p ((hd.node hn).parent p hp)
  refine ⟨n', hn', ?_, ?_⟩
  · rw [hshows.kind]
    exact (hd.node hn).module.mpr hparent
  · rw [hshows.parent, hparent]
    rfl

theorem parent (hn' : g.nodes[i]? = some n') (hi : i ≠ 0) :
    ∃ j m, j < i ∧ g.nodes[j]? = some m ∧ n'.parent = some m.id := by
  obtain ⟨n, hn, hshows⟩ := h.origin hn'
  cases hparent : n.parent with
  | none => exact absurd ((hd.node hn).root hparent) hi
  | some p =>
    have hp := (hd.node hn).parent p hparent
    have hsize : p < d.nodes.size := Nat.lt_trans hp (Array.getElem?_eq_some_iff.mp hn).1
    obtain ⟨m', hm', hshows'⟩ := h.node (Array.getElem?_eq_getElem hsize)
    refine ⟨p, m', hp, hm', ?_⟩
    rw [hshows.parent, hparent, hshows'.id]
    rfl

theorem child (hn' : n' ∈ g.nodes) {r : String}
    (hr : r ∈ n'.listed) : ∃ m ∈ g.nodes, m.id = r ∧ m.parent = some n'.id := by
  obtain ⟨i, n, hn, hshows⟩ := h.origin_of_mem hn'
  rw [hshows.listed] at hr
  obtain ⟨x, hx, rfl⟩ := mem_map.mp hr
  obtain ⟨kind, scope, c, hc, -, hparent, -⟩ := (hd.node hn).children x hx
  obtain ⟨c', hc', hshows'⟩ := h.node hc
  refine ⟨c', mem_of_getElem? hc', hshows'.id, ?_⟩
  rw [hshows'.parent, hparent, hshows.id]
  rfl

theorem nodup (hn' : n' ∈ g.nodes) : n'.listed.Nodup := by
  obtain ⟨i, n, hn, hshows⟩ := h.origin_of_mem hn'
  have hproper := hd.node hn
  rw [hshows.listed]
  refine hproper.nodup.map_on fun x hx y hy heq => ?_
  exact h.inj (hproper.children x hx).lt (hproper.children y hy).lt heq

theorem referential (hsome : 0 < d.nodes.size) : g.Referential where
  distinct := h.distinct
  root := h.root hd hsome
  parent hn hi := h.parent hd hn hi
  edge := by
    rw [h.edges]
    intro e' he'
    obtain ⟨e, he, rfl⟩ := mem_map.mp he'
    have hjoins := hd.edge e (Array.mem_toList_iff.mp he)
    refine ⟨h.has hjoins.source, h.has hjoins.target, fun x hx => ?_⟩
    obtain ⟨y, hy, rfl⟩ := Option.map_eq_some_iff.mp hx
    exact h.has (hjoins.guard y hy)
  attr n' hn' r hr := by
    obtain ⟨i, n, hn, hshows⟩ := h.origin_of_mem hn'
    obtain ⟨x, hx, rfl⟩ := hshows.refs r hr
    exact h.has ((hd.node hn).refs x hx)
  symbol := by
    rw [h.symbols]
    intro s' hs' r hr
    obtain ⟨s, hs, rfl⟩ := mem_map.mp hs'
    have hrefs : r ∈ (s.defs ++ s.uses).map f := by simpa [Symbol.map] using hr
    obtain ⟨x, hx, rfl⟩ := mem_map.mp hrefs
    exact h.has (hd.symbol s (Array.mem_toList_iff.mp hs) x hx)
  child _ hn _ hr := h.child hd hn hr
  once := Graph.nodup_listed (h.distinct) (fun _ hn => h.nodup hd hn) fun _ hn _ hr => h.child hd hn hr
  keys := by
    rw [h.symbols, map_map]
    exact hd.keys

end Draft.Shows

/-- The graph of a module is referentially sound. -/
theorem parse_referential {s : Settings} {yaml : String → Embedded.YamlResult} {file : String}
    {m : Module} {g : Graph String} (h : parse s yaml file m = .ok g) : g.Referential := by
  obtain ⟨d, f, hsound, hsome, hshows⟩ := parse_shows h
  exact hshows.referential hsound hsome

example : (parse {} (fun _ => .scalar) "m.py" ⟨[]⟩).toOption.map (·.nodes.length) = some 1 := by decide +kernel

/-- A loop with an else clause, a jump out of it, a comprehension and a call under another name. -/
def polling : Module where
  body := [ .importNames ⟨1, 0, 1, 14⟩ [⟨⟨1, 7, 1, 14⟩, "os", some "o"⟩],
    .funcDef ⟨2, 0, 7, 26⟩ false "poll" (.mk [] [.mk ⟨2, 9, 2, 10⟩ "c" none none] none [] [] none []) [
      .whileLoop ⟨3, 4, 7, 26⟩ (.name ⟨3, 10, 3, 11⟩ "c" .load)
        [.assign ⟨4, 8, 4, 23⟩ [.name ⟨4, 8, 4, 9⟩ "x" .store] (.call ⟨4, 12, 4, 23⟩
            (.attribute ⟨4, 12, 4, 20⟩ (.name ⟨4, 12, 4, 13⟩ "o" .load) "system" .load)
            [.name ⟨4, 21, 4, 22⟩ "c" .load] []) none,
          .breakLoop ⟨5, 8, 5, 13⟩]
        [.assign ⟨7, 8, 7, 26⟩ [.name ⟨7, 8, 7, 9⟩ "y" .store]
          (.listComp ⟨7, 12, 7, 26⟩ (.name ⟨7, 13, 7, 14⟩ "i" .load)
            [.mk (.name ⟨7, 19, 7, 20⟩ "i" .store) (.name ⟨7, 24, 7, 25⟩ "c" .load) [] false]) none]]
      [] none none]

theorem polling_referential : ∃ g, parse {} (fun _ => .scalar) "m.py" polling = .ok g ∧
    g.nodes.length = 18 ∧ g.edges.length = 9 ∧ g.Referential := by
  have hsize : ∃ g ∈ (parse {} (fun _ => .scalar) "m.py" polling).toOption,
      g.nodes.length = 18 ∧ g.edges.length = 9 := by decide +kernel
  obtain ⟨g, hparse, hnodes, hedges⟩ := exists_ok hsize
  exact ⟨g, hparse, hnodes, hedges, parse_referential hparse⟩

/-- `while c: break`, with `y = 2` in its else clause. -/
def waiting : Module where
  body := [ .whileLoop ⟨1, 0, 4, 9⟩ (.name ⟨1, 6, 1, 7⟩ "c" .load) [.breakLoop ⟨2, 4, 2, 9⟩]
    [.assign ⟨4, 4, 4, 9⟩ [.name ⟨4, 4, 4, 5⟩ "y" .store] (.constant ⟨4, 8, 4, 9⟩ (.nat 2) none) none]]

/-- A break does not skip the else clause of its loop: the block that it leads to is made of it. -/
theorem else_not_skipped : ∃ g, parse {} (fun _ => .scalar) "m.py" waiting = .ok g ∧
    ∃ e ∈ g.edges, e.kind = "break" ∧ ∃ b ∈ g.nodes, b.id = e.target ∧
      ∃ a ∈ b.attr? "stmt_ids", "Assign:m.py:4:4:5" ∈ a.refs := exists_ok (by decide +kernel)

/-! ## Imports -/

theorem Node.Marks.importRow_eq (h : n.Marks n') : n'.importRow = n.importRow := by
  unfold importRow
  rw [h.kind, h.span, h.attr "names" (by decide) (by decide)]

theorem Node.importRow_map {ρ σ : Type} (f : ρ → σ) (n : Node ρ) : (n.map f).importRow = n.importRow := by
  unfold importRow
  rw [attr?_map]
  match n.attr? "names" with
  | none | some (.rows _) | some (.cell (.data _)) | some (.cell (.node _)) | some (.cell (.nodes _)) => rfl

theorem Graph.Marks.map_importRow {g g' : Graph Nat} (h : g.Marks g') :
    g'.nodes.map Node.importRow = g.nodes.map Node.importRow := by
  refine ext_getElem? fun i => ?_
  rw [getElem?_map, getElem?_map]
  cases hn : g.nodes[i]? with
  | none =>
    have hlen := h.length
    rw [getElem?_eq_none_iff] at hn
    rw [getElem?_eq_none_iff.mpr (by omega)]
  | some n =>
    obtain ⟨n', hn', hmarks⟩ := h.node hn
    rw [hn']
    exact congrArg some hmarks.importRow_eq

/-- The nodes of imports in the graph of a module are those of its imports. -/
theorem mem_rows_parse {g : Graph String} (h : parse s yaml file m = .ok g) (x : ImportRow) :
    x ∈ g.nodes.filterMap Node.importRow ↔ IsRowOf file x m.body := by
  obtain ⟨env, g', hfile, hscope, hloop, hmarks, rfl⟩ := parse_marks h
  have hmem := (makes_module env hscope hloop (s.prepared m)).2.2 x
  have hstrip : IsRowOf env.file x (s.prepared m).body ↔
      IsRowOf file x m.body := by
    rw [hfile, Settings.prepared]
    split
    · simp [IsRowOf, Module.stripDocstrings, Syntax.imports_dropDocstring, Syntax.imports_stripDocstringsIn]
    · rfl
  have hnamed : g'.named.nodes.map Node.importRow = g'.nodes.map Node.importRow := by
    simp [Graph.named, Graph.map, Node.importRow_map]
  have hrow : ∀ {ρ : Type} (l : List (Node ρ)), x ∈ l.filterMap Node.importRow ↔ some x ∈ l.map Node.importRow := by
    simp
  rw [← hstrip, ← hmem, hrow, hnamed, hmarks.map_importRow, ← hrow]
  rfl

end SecScan.Ir
