import SecScan.Proofs.Keyed
import SecScan.Store.Record

/-!
Merging graphs and splitting them by file. Of several elements with the same key a merged graph has the first, in the
order of merging, and only that one (`Firsts`). A symbol is known by its name, its kind and its scope, and not by its
file; so of namesakes in several files the merged graph has the nodes of one, also if they are what became of one symbol
when its graph was split (`lists_merged`).
-/

namespace SecScan

open List Value Syntax SecScan.Store.Graph

variable {g : Store.Graph} {gs : List Store.Graph} {s : Store.Symbol} {id : String}

/-! ## Keys -/

namespace Value

/-- A value that equals no other one, also not of another kind. -/
def Distinctive (v : Value) : Prop := ∀ w, v.same w = true ↔ v = w

theorem distinctive_null : Distinctive .null := by
  intro w
  cases w <;> simp [same]

theorem distinctive_text (s : String) : Distinctive (.text s) := by
  intro w
  cases w <;> simp [same]

theorem distinctive_tuple {l : List Value} (h : ∀ v ∈ l, Distinctive v) : Distinctive (.tuple l) := by
  have hall : ∀ m, sameAll l m = true ↔ l = m := by
    induction l with
    | nil =>
      intro m
      cases m <;> simp [sameAll]
    | cons v l ih =>
      obtain ⟨hv, hl⟩ := forall_mem_cons.mp h
      intro m
      cases m with
      | nil => simp [sameAll]
      | cons w m => simp [sameAll, hv w, ih hl m]
  intro w
  cases w with
  | tuple m => simpa [same] using hall m
  | _ => simp [same]

end Value

/-- What can be a key and equals no other one. -/
structure Value.Fit (v : Value) : Prop where
  distinctive : v.Distinctive
  hashable : isHashable v = true

theorem Value.fit_text (s : String) : (text s).Fit := ⟨distinctive_text s, by simp [isHashable]⟩

theorem Value.fit_tuple {l : List Value} (h : ∀ v ∈ l, v.Fit) : (tuple l).Fit := by
  refine ⟨distinctive_tuple fun v hv => (h v hv).distinctive, ?_⟩
  rw [isHashable]
  induction l with
  | nil => rw [areHashable]
  | cons v l ih =>
    obtain ⟨hv, hl⟩ := forall_mem_cons.mp h
    rw [areHashable, hv.hashable, ih hl, Bool.and_self]

namespace Store

/-! ## Elements with new keys -/

/-- The first elements of a list with each key. -/
structure Firsts {α : Type} (key : α → Value) (l r : List α) : Prop where
  mem : ∀ x ∈ r, x ∈ l
  distinct : (r.map key).Nodup
  first : ∀ k, r.find? (fun x => (key x).same k) = l.find? fun x => (key x).same k

section Firsts

variable {α : Type} {key : α → Value} {l r : List α}

theorem firsts_nil (key : α → Value) : Firsts key [] [] := ⟨by simp, by simp, by simp⟩

/-- What is found under a key in the whole list is the one element with that key among the first ones. -/
theorem Firsts.find?_eq_some (h : Firsts key l r) (hfit : ∀ x ∈ l, (key x).Fit) {k : Value} {x : α} :
    l.find? (fun y => (key y).same k) = some x ↔ x ∈ r ∧ key x = k := by
  have hkey : ∀ {y}, y ∈ r → ((key y).same k = true ↔ key y = k) := fun hy => (hfit _ (h.mem _ hy)).distinctive k
  rw [← h.first]
  constructor
  · intro hfind
    have hx := mem_of_find?_eq_some hfind
    exact ⟨hx, (hkey hx).mp (by simpa using find?_some hfind)⟩
  · rintro ⟨hx, hk⟩
    obtain ⟨y, hy⟩ : ∃ y, r.find? (fun y => (key y).same k) = some y :=
      Option.isSome_iff_exists.mp (find?_isSome.mpr ⟨x, hx, (hkey hx).mpr hk⟩)
    have hyr := mem_of_find?_eq_some hy
    have hyk : key y = k := (hkey hyr).mp (by simpa using find?_some hy)
    rw [hy, inj_on_of_nodup_map h.distinct hyr hx (hyk.trans hk.symm)]

theorem Firsts.enterNew (h : Firsts key l r) {x : α} (hfit : ∀ y ∈ l ++ [x], (key y).Fit) :
    ∃ r', Graph.enterNew key r x = .ok r' ∧ Firsts key (l ++ [x]) r' := by
  have hx : (key x).Fit := hfit x (by simp)
  have hr : ∀ y ∈ r, (key y).Distinctive := fun y hy => (hfit y (by simp [h.mem y hy])).distinctive
  have hknown : (r.any fun y => (key y).same (key x)) = true ↔ key x ∈ r.map key := by
    simp only [any_eq_true, mem_map]
    exact exists_congr fun y => and_congr_right fun hy => hr y hy (key x)
  rw [Graph.enterNew, hx.hashable]
  by_cases hmem : key x ∈ r.map key
  · refine ⟨r, by simp [hknown.mpr hmem], ?_, h.distinct, ?_⟩
    · exact fun y hy => mem_append_left _ (h.mem y hy)
    · intro k
      rw [find?_append, ← h.first]
      cases hfind : r.find? fun y => (key y).same k with
      | some y => rfl
      | none =>
        -- what is found under the key of the new element is found already
        have hnot : (key x).same k = false := by
          obtain ⟨y, hy, hkey⟩ := mem_map.mp hmem
          have := find?_eq_none.mp hfind y hy
          rw [hkey] at this
          simpa using this
        simp [hnot]
  · have hnew : (r.any fun y => (key y).same (key x)) = false := by
      rw [Bool.eq_false_iff]
      exact fun h => hmem (hknown.mp h)
    refine ⟨r ++ [x], by simp [hnew], ?_, ?_, ?_⟩
    · exact fun y hy => (mem_append.mp hy).elim (fun hy => mem_append_left _ (h.mem y hy)) (mem_append_right _)
    · rw [map_append, map_singleton]
      exact nodup_append.mpr ⟨h.distinct, by simp, by simpa using hmem⟩
    · intro k
      rw [find?_append, find?_append, h.first]

theorem Firsts.foldlM (h : Firsts key l r) {l' : List α} (hfit : ∀ x ∈ l ++ l', (key x).Fit) :
    ∃ r', l'.foldlM (Graph.enterNew key) r = .ok r' ∧ Firsts key (l ++ l') r' := by
  induction l' generalizing l r with
  | nil => exact ⟨r, rfl, by rwa [append_nil]⟩
  | cons x l' ih =>
    rw [append_cons] at hfit ⊢
    obtain ⟨r1, hr1, h1⟩ := h.enterNew fun y hy => hfit y (mem_append_left _ hy)
    obtain ⟨r2, hr2, h2⟩ := ih h1 hfit
    exact ⟨r2, by rw [foldlM_cons, hr1]; exact hr2, h2⟩

end Firsts

/-! ## Merging -/

def Node.isTyped (n : Node) : Bool := n.id.isText

def Edge.isTyped (e : Edge) : Bool :=
  e.source.isText && e.target.isText && e.kind.isText && (e.guard.isNull || e.guard.isText)

def Symbol.isTyped (s : Symbol) : Bool :=
  s.name.isText && s.kind.isText && s.container.isText && [s.defs, s.uses].all fun ids =>
    ids.isList && ids.items.all (·.isText)

/-- A graph whose records hold what their fields are meant for. -/
def Graph.isTyped (g : Graph) : Bool := g.nodes.all (·.isTyped) && g.edges.all (·.isTyped) && g.symbols.all (·.isTyped)

theorem isText_iff {v : Value} : v.isText = true ↔ ∃ s, v = .text s := by cases v <;> simp [isText]

theorem fit_of_isText {v : Value} (h : v.isText = true) : v.Fit := by
  obtain ⟨s, rfl⟩ := isText_iff.mp h
  exact fit_text s

theorem Node.fit_id {n : Node} (h : n.isTyped = true) : n.id.Fit := fit_of_isText h

theorem Edge.fit_key {e : Edge} (h : e.isTyped = true) : e.key.Fit := by
  simp only [isTyped, Bool.and_eq_true, Bool.or_eq_true] at h
  obtain ⟨⟨⟨hsource, htarget⟩, hkind⟩, hguard⟩ := h
  have hguard : e.guard.Fit := by
    rcases hguard with hguard | hguard
    · cases hg : e.guard with
      | null => exact ⟨distinctive_null, by simp [isHashable]⟩
      | _ => simp [hg, isNull] at hguard
    · exact fit_of_isText hguard
  refine fit_tuple ?_
  simp only [forall_mem_cons]
  exact ⟨fit_of_isText hsource, fit_of_isText htarget, fit_of_isText hkind, hguard, by simp⟩

theorem Symbol.fit_key (h : s.isTyped = true) : s.key.Fit := by
  simp only [isTyped, Bool.and_eq_true] at h
  obtain ⟨⟨⟨hname, hkind⟩, hcontainer⟩, -⟩ := h
  refine fit_tuple ?_
  simp only [forall_mem_cons]
  exact ⟨fit_of_isText hname, fit_of_isText hkind, fit_of_isText hcontainer, by simp⟩

/-- What graphs are merged to: the first node, edge and symbol with each key. -/
structure Merged (gs : List Graph) (m : Graph) : Prop where
  nodes : Firsts (·.id) (gs.flatMap (·.nodes)) m.nodes
  edges : Firsts (·.key) (gs.flatMap (·.edges)) m.edges
  symbols : Firsts (·.key) (gs.flatMap (·.symbols)) m.symbols

/-- What can be merged: all that serves as a key can be one. -/
structure Graph.Fit (g : Graph) : Prop where
  nodes : ∀ n ∈ g.nodes, n.id.Fit
  edges : ∀ e ∈ g.edges, e.key.Fit
  symbols : ∀ s ∈ g.symbols, s.key.Fit

theorem Graph.fit_of_isTyped (h : g.isTyped = true) : g.Fit := by
  simp only [isTyped, Bool.and_eq_true, all_eq_true] at h
  exact ⟨fun n hn => Node.fit_id (h.1.1 n hn), fun e he => Edge.fit_key (h.1.2 e he),
    fun s hs => Symbol.fit_key (h.2 s hs)⟩

theorem Merged.merge {m : Graph} (h : Merged gs m) (hfit : ∀ x ∈ gs ++ [g], x.Fit) :
    ∃ m', m.merge g = .ok m' ∧ Merged (gs ++ [g]) m' := by
  have hall : ∀ {α : Type} {key : α → Value} {part : Graph → List α}, (∀ x ∈ gs ++ [g], ∀ a ∈ part x, (key a).Fit) →
      ∀ a ∈ gs.flatMap part ++ part g, (key a).Fit := by
    intro α key part hpart a ha
    have ha : a ∈ (gs ++ [g]).flatMap part := by simpa using ha
    obtain ⟨x, hx, ha⟩ := mem_flatMap.mp ha
    exact hpart x hx a ha
  obtain ⟨nodes, hnodes, hfirstNodes⟩ := h.nodes.foldlM (hall fun x hx => (hfit x hx).nodes)
  obtain ⟨edges, hedges, hfirstEdges⟩ := h.edges.foldlM (hall fun x hx => (hfit x hx).edges)
  obtain ⟨symbols, hsymbols, hfirstSymbols⟩ := h.symbols.foldlM (hall fun x hx => (hfit x hx).symbols)
  refine ⟨⟨nodes, edges, symbols⟩, ?_, ?_, ?_, ?_⟩
  · rw [Graph.merge, hnodes, hedges, hsymbols]
    rfl
  · simpa using hfirstNodes
  · simpa using hfirstEdges
  · simpa using hfirstSymbols

theorem merged_mergeAll (hfit : ∀ g ∈ gs, g.Fit) : ∃ m, mergeAll gs = .ok m ∧ Merged gs m := by
  induction gs using reverseRecOn with
  | nil => exact ⟨{}, rfl, firsts_nil _, firsts_nil _, firsts_nil _⟩
  | append_singleton gs g ih =>
    obtain ⟨m, hm, h⟩ := ih fun x hx => hfit x (mem_append_left _ hx)
    obtain ⟨m', hm', h'⟩ := h.merge hfit
    refine ⟨m', ?_, h'⟩
    rw [mergeAll] at hm ⊢
    rw [foldlM_append, hm]
    change [g].foldlM Graph.merge m = _
    rw [foldlM_cons, hm']
    rfl

/-! ## Splitting -/

/-- Whether it can be told of a node which file it stands in, if any. -/
def Node.isPlaced (n : Node) : Bool :=
  match n.place with
  | .known file _ => file.isText
  | .unread v => !v.truthy

def Graph.isPlaced (g : Graph) : Bool := g.nodes.all (·.isPlaced)

def Node.file? (n : Node) : Option String :=
  match n.place with
  | .known (.text f) _ => if f = "" then none else some f
  | _ => none

variable (ns : List Node)

/-- The files of some nodes, in the order of their first nodes. -/
def filesOf : List String := (ns.filterMap (·.file?)).eraseDups

/-- The file that a name leads to: that of the last node of this name that has one. -/
def fileOf? (id : String) : Option String :=
  (ns.filterMap fun n => if isKey id n.id then n.file? else none).getLast?

/-- Whether a name leads to a file. -/
def isIn (f : String) (id : Value) : Bool := id.text?.bind (fileOf? ns) == some f

/-- Whether a symbol is defined or used in a file. -/
def Symbol.standsIn (s : Symbol) (ns : List Node) (f : String) : Bool := (s.defs.items ++ s.uses.items).any (isIn ns f)

/-- A symbol with its nodes in a file only. -/
def Symbol.within (s : Symbol) (ns : List Node) (f : String) : Symbol :=
  { s with defs := .list (s.defs.items.filter (isIn ns f)), uses := .list (s.uses.items.filter (isIn ns f)) }

def Graph.pieceIn (g : Graph) (f : String) : Graph where
  nodes := g.nodes.filter (·.file? = some f)
  edges := g.edges.filter fun e => isIn g.nodes f e.source && isIn g.nodes f e.target
  symbols := (g.symbols.filter (·.standsIn g.nodes f)).map (·.within g.nodes f)

theorem same_text (a b : String) : (text a).same (.text b) = (a == b) := by simp [same]

theorem requireKey_text (s : String) : requireKey (.text s) = .ok () := by
  simp [requireKey, isHashable]

theorem mapM_eq_map {ε α β : Type} {f : α → Except ε β} {g : α → β} {l : List α} (h : ∀ a ∈ l, f a = .ok (g a)) :
    l.mapM f = .ok (l.map g) := by
  rw [mapM_eq_ok, forall₂_map_right_iff, forall₂_same]
  exact h

theorem eraseDupsBy_texts (l : List String) : (l.map text).eraseDupsBy same = l.eraseDups.map .text := by
  induction hn : l.length using Nat.strongRecOn generalizing l with
  | _ n ih =>
    cases l with
    | nil => rfl
    | cons a l =>
      have hfilter : (l.map text).filter (fun v => decide (v.same (.text a) = false))
          = (l.filter fun b => !b == a).map .text := by
        rw [filter_map]
        congr 1
        exact filter_congr fun b _ => by simp [same_text]
      have hlen : (l.filter fun b => !b == a).length < n := by
        have := length_filter_le (fun b => !b == a) l
        simp only [length_cons] at hn
        omega
      rw [map_cons, eraseDupsBy_cons, hfilter, ih _ hlen _ rfl, eraseDups_cons, map_cons]

theorem Node.placed?_eq {n : Node} (htyped : n.isTyped = true) (h : n.isPlaced = true) :
    placed? n = .ok (n.file?.map fun f => (n, .text f)) := by
  have hfile : n.place.file? = .ok (n.file?.map .text) := by
    unfold Node.file?
    unfold Node.isPlaced at h
    cases hplace : n.place with
    | unread v =>
      have hv : v.truthy = false := by simpa [hplace] using h
      simp [Place.file?, hv]
    | known file span =>
      simp only [hplace] at h
      obtain ⟨f, rfl⟩ := isText_iff.mp h
      by_cases hf : f = "" <;> simp [Place.file?, truthy, hf]
  obtain ⟨id, hid⟩ := isText_iff.mp htyped
  rw [placed?, hfile, hid]
  cases n.file? with
  | none => rfl
  | some f =>
    simp only [Option.map_some, bind, Except.bind, requireKey_text]
    rfl

/-- The nodes that stand in a file, each with it. -/
def placedOf : List (Node × Value) := ns.filterMap fun n => n.file?.map fun f => (n, .text f)

def leads (id : Value) : Option Value := (id.text?.bind (fileOf? ns)).map .text

theorem any_leads (f : String) (id : Value) : (leads ns id).any (·.same (.text f)) = isIn ns f id := by
  rw [leads, isIn]
  cases id.text?.bind (fileOf? ns) <;> simp [same_text]

section Placed

variable {ns} (htyped : ∀ n ∈ ns, n.isTyped = true)
include htyped

theorem fileIn_placedOf {id : Value} (hid : id.isText = true) : fileIn (placedOf ns) id = .ok (leads ns id) := by
  obtain ⟨id, rfl⟩ := isText_iff.mp hid
  have hnamed : ((placedOf ns).filter (·.1.id.same (.text id))).map (·.2)
      = (ns.filterMap fun n => if isKey id n.id then n.file? else none).map .text := by
    rw [placedOf, filter_filterMap, map_filterMap, map_filterMap]
    refine filterMap_congr fun n hn => ?_
    obtain ⟨k, hk⟩ := isText_iff.mp (htyped n hn)
    cases n.file? with
    | none => simp
    | some f => by_cases hkid : k = id <;> simp [hk, same_text, isKey, hkid, Option.filter]
  rw [fileIn, requireKey_text, ← getLast?_map, hnamed, getLast?_map]
  rfl

theorem idsIn_placedOf (f : String) {ids : List Value} (hids : ∀ id ∈ ids, id.isText = true) :
    idsIn (placedOf ns) (.text f) (.list ids) = .list (ids.filter (isIn ns f)) := by
  refine congrArg list (filter_congr fun id hid => ?_)
  rw [fileIn_placedOf htyped (hids id hid), ← any_leads]
  rfl

end Placed

theorem filter_placedOf (f : String) :
    ((placedOf ns).filter (·.2.same (.text f))).map (·.1) = ns.filter (·.file? = some f) := by
  rw [placedOf, filter_filterMap, map_filterMap, ← filterMap_eq_filter]
  refine filterMap_congr fun n _ => ?_
  cases hn : n.file? with
  | none => simp [Option.guard, hn]
  | some a => by_cases ha : a = f <;> simp [same_text, ha, Option.filter, Option.guard, hn]

theorem files_placedOf : ((placedOf ns).map (·.2)).eraseDupsBy same = (filesOf ns).map .text := by
  rw [placedOf, map_filterMap, filesOf, ← eraseDupsBy_texts, map_filterMap]
  simp only [Option.map_map]
  rfl

theorem Symbol.texts_of_isTyped (h : s.isTyped = true) :
    ∃ ds us, s.defs = .list ds ∧ s.uses = .list us ∧ ∀ id ∈ ds ++ us, id.isText = true := by
  simp only [isTyped, all_cons, all_nil, Bool.and_true, Bool.and_eq_true, all_eq_true] at h
  obtain ⟨-, ⟨hdefs, hdefsText⟩, huses, husesText⟩ := h
  cases hd : s.defs with
  | list ds =>
    cases hu : s.uses with
    | list us =>
      rw [hd] at hdefsText
      rw [hu] at husesText
      exact ⟨ds, us, rfl, rfl, fun id hid => (mem_append.mp hid).elim (hdefsText id) (husesText id)⟩
    | _ => simp [hu, isList] at huses
  | _ => simp [hd, isList] at hdefs

/-- A graph is split into what each of its files has of it. -/
theorem split_eq (htyped : g.isTyped = true) (hplaced : g.isPlaced = true) :
    g.split = .ok ((filesOf g.nodes).map fun f => (.text f, g.pieceIn f)) := by
  simp only [isTyped, Bool.and_eq_true, all_eq_true] at htyped
  obtain ⟨⟨hnodes, hedges⟩, hsymbols⟩ := htyped
  have hfound : g.nodes.mapM placed? = .ok (g.nodes.map fun n => n.file?.map fun f => (n, .text f)) :=
    mapM_eq_map fun n hn => Node.placed?_eq (hnodes n hn) (all_eq_true.mp hplaced n hn)
  have hplacedOf : (g.nodes.map fun n => n.file?.map fun f => (n, text f)).filterMap id = placedOf g.nodes := by
    rw [filterMap_map]
    rfl
  simp only [split, hfound, bind, Except.bind, hplacedOf]
  rw [mapM_eq_map (g := fun e => (e, [leads g.nodes e.source, leads g.nodes e.target]))]
  · simp only []
    rw [mapM_eq_map (g := fun s => (s, (s.defs.items ++ s.uses.items).map (leads g.nodes)))]
    · simp only [files_placedOf, map_map, pure, Except.pure]
      refine congrArg Except.ok (map_congr_left fun f _ => Prod.ext rfl ?_)
      simp only [Function.comp_apply, pieceIn, mk.injEq]
      refine ⟨filter_placedOf g.nodes f, by simp [filter_map, Function.comp_def, any_leads], ?_⟩
      simp only [filter_map, Function.comp_def, map_map, any_map, any_leads]
      refine map_congr_left fun s hs => ?_
      obtain ⟨ds, us, hds, hus, htexts⟩ := Symbol.texts_of_isTyped (hsymbols s (mem_of_mem_filter hs))
      rw [Symbol.within, hds, hus, idsIn_placedOf hnodes f fun id hid => htexts id (mem_append_left _ hid),
        idsIn_placedOf hnodes f fun id hid => htexts id (mem_append_right _ hid)]
      rfl
    · intro s hs
      obtain ⟨ds, us, hds, hus, htexts⟩ := Symbol.texts_of_isTyped (hsymbols s hs)
      have hids := mapM_eq_map fun id hid => fileIn_placedOf hnodes (htexts id hid)
      simp only [hds, hus, plus, each, hids]
      rfl
  · intro e he
    have hends := hedges e he
    simp only [Edge.isTyped, Bool.and_eq_true] at hends
    obtain ⟨⟨⟨hsource, htarget⟩, -⟩, -⟩ := hends
    rw [fileIn_placedOf hnodes hsource, fileIn_placedOf hnodes htarget]
    rfl

/-! ## What is left of the symbols -/

/-- The two ways in which a node can belong to a symbol. -/
inductive Role where
  | defines | uses
  deriving DecidableEq

def Symbol.ids (s : Symbol) : Role → List Value
  | .defines => s.defs.items
  | .uses => s.uses.items

def symbolKey (name kind scope : String) : Value := .tuple [.text name, .text kind, .text scope]

/-- A node defines, or uses, a symbol with a key. -/
def Graph.Lists (g : Graph) (role : Role) (key : Value) (id : String) : Prop :=
  ∃ s ∈ g.symbols, s.key = key ∧ .text id ∈ s.ids role

theorem lists_mergeAll (hfit : ∀ g ∈ gs, g.Fit) : ∃ m, mergeAll gs = .ok m ∧
    ∀ role key id, m.Lists role key id ↔
      ∃ s, (gs.flatMap (·.symbols)).find? (·.key.same key) = some s ∧ .text id ∈ s.ids role := by
  obtain ⟨m, hm, h⟩ := merged_mergeAll hfit
  have hkeys : ∀ s ∈ gs.flatMap (·.symbols), s.key.Fit := by
    intro s hs
    obtain ⟨g, hg, hs⟩ := mem_flatMap.mp hs
    exact (hfit g hg).symbols s hs
  refine ⟨m, hm, fun role key id => exists_congr fun s => ?_⟩
  rw [h.symbols.find?_eq_some hkeys, and_assoc]

/-- The symbols of the pieces of a graph have the keys of its own. -/
theorem Graph.Fit.pieceIn (h : g.Fit) (f : String) : (g.pieceIn f).Fit := by
  refine ⟨fun n hn => h.nodes n (mem_of_mem_filter hn), fun e he => h.edges e (mem_of_mem_filter he), ?_⟩
  intro s hs
  obtain ⟨t, ht, rfl⟩ := mem_map.mp hs
  exact h.symbols t (mem_of_mem_filter ht)

theorem findSome?_eq_bind {α β : Type} (f : α → Option β) (l : List α) :
    l.findSome? f = (l.find? fun a => (f a).isSome).bind f := by
  induction l with
  | nil => rfl
  | cons a l ih =>
    cases ha : f a with
    | none => simp [ha, ih]
    | some b => simp [ha]

theorem Graph.find?_pieceIn (g : Graph) (f : String) (key : Value) : (g.pieceIn f).symbols.find? (·.key.same key)
    = (g.symbols.find? fun s => s.key.same key && s.standsIn g.nodes f).map (·.within g.nodes f) := by
  rw [pieceIn, find?_map, find?_filter]
  refine congrArg (Option.map _) (congrArg (find? · _) (funext fun s => ?_))
  rw [Bool.and_comm, Bool.eq_iff_iff, decide_eq_true_iff, Bool.and_eq_true]
  rfl

theorem Symbol.mem_ids_within {ns : List Node} {f : String} (role : Role) :
    .text id ∈ (s.within ns f).ids role ↔ .text id ∈ s.ids role ∧ fileOf? ns id = some f := by
  cases role <;> simp [ids, within, items, isIn, text?]

theorem lists_mergeAll_split (htyped : g.isTyped = true) (hplaced : g.isPlaced = true) :
    ∃ pieces m, g.split = .ok pieces ∧ mergeAll (pieces.map (·.2)) = .ok m ∧
      ∀ role key id, m.Lists role key id ↔ ∃ f s,
        (filesOf g.nodes).find? (fun f => g.symbols.any fun s => s.key.same key && s.standsIn g.nodes f) = some f
        ∧ g.symbols.find? (fun s => s.key.same key && s.standsIn g.nodes f) = some s
        ∧ .text id ∈ s.ids role ∧ fileOf? g.nodes id = some f := by
  have hpieces : ((filesOf g.nodes).map fun f => (text f, g.pieceIn f)).map (·.2)
      = (filesOf g.nodes).map g.pieceIn := by
    rw [map_map]
    rfl
  have hfit : ∀ x ∈ (filesOf g.nodes).map g.pieceIn, x.Fit := by
    intro x hx
    obtain ⟨f, -, rfl⟩ := mem_map.mp hx
    exact (fit_of_isTyped htyped).pieceIn f
  obtain ⟨m, hm, hlists⟩ := lists_mergeAll hfit
  refine ⟨_, m, split_eq htyped hplaced, by rw [hpieces]; exact hm, fun role key id => ?_⟩
  rw [hlists, flatMap_map]
  -- the part of the first symbol in the first file that has one
  simp only [find?_flatMap, g.find?_pieceIn, findSome?_eq_bind, Option.isSome_map, isSome_find?,
    Option.bind_eq_some_iff, Option.map_eq_some_iff]
  constructor
  · rintro ⟨t, ⟨f, hf, s, hs, rfl⟩, hid⟩
    exact ⟨f, s, hf, hs, (Symbol.mem_ids_within role).mp hid⟩
  · rintro ⟨f, s, hf, hs, hid⟩
    exact ⟨_, ⟨f, hf, s, hs, rfl⟩, (Symbol.mem_ids_within role).mpr hid⟩

/-- The merged graph has the nodes of the first symbol with each name, kind and scope, and no others. So if a graph is
split and its pieces are merged again, it has those nodes of the first symbol that stand in the first of the files
where one with this name, kind and scope is defined or used. -/
theorem lists_merged {gs : List Graph} (hgs : ∀ g ∈ gs, g.isTyped = true) {g : Graph} (htyped : g.isTyped = true)
    (hplaced : g.isPlaced = true) :
    (∃ m, mergeAll gs = .ok m ∧ ∀ role name kind scope id, m.Lists role (symbolKey name kind scope) id ↔
      ∃ s, (gs.flatMap (·.symbols)).find? (·.key.same (symbolKey name kind scope)) = some s ∧ .text id ∈ s.ids role)
    ∧ ∃ pieces m, g.split = .ok pieces ∧ mergeAll (pieces.map (·.2)) = .ok m ∧
      ∀ role name kind scope id, m.Lists role (symbolKey name kind scope) id ↔ ∃ f s,
        (filesOf g.nodes).find? (fun f => g.symbols.any fun s =>
          s.key.same (symbolKey name kind scope) && s.standsIn g.nodes f) = some f
        ∧ g.symbols.find? (fun s => s.key.same (symbolKey name kind scope) && s.standsIn g.nodes f) = some s
        ∧ .text id ∈ s.ids role ∧ fileOf? g.nodes id = some f := by
  obtain ⟨m, hm, hlists⟩ := lists_mergeAll fun g hg => fit_of_isTyped (hgs g hg)
  obtain ⟨pieces, m', hsplit, hm', hlists'⟩ := lists_mergeAll_split htyped hplaced
  exact ⟨⟨m, hm, fun role name kind scope => hlists role (symbolKey name kind scope)⟩,
    pieces, m', hsplit, hm', fun role name kind scope => hlists' role (symbolKey name kind scope)⟩

/-- A symbol with some definitions. -/
def definedBy (ids : List String) : Symbol :=
  { name := .text "x", kind := .text "var", container := .text "s", defs := .texts ids }

/-- A file with one node, which defines `x`. -/
def fileGraph (id file : String) : Graph :=
  { nodes := [{ id := .text id, place := .known (.text file) ⟨file, 1, 0, 1, 1⟩ }]
    symbols := [definedBy [id]] }

/-- Two files whose nodes define one symbol. -/
def straddling : Graph :=
  { nodes := (fileGraph "a" "a.py").nodes ++ (fileGraph "b" "b.py").nodes
    symbols := [definedBy ["a", "b"]] }

theorem text_mem_definedBy {ids : List String} : .text id ∈ (definedBy ids).ids .defines ↔ id ∈ ids := by
  simp [definedBy, Symbol.ids, texts, items]

theorem find?_fileGraphs : ([fileGraph "a" "a.py", fileGraph "b" "b.py"].flatMap (·.symbols)).find?
    (·.key.same (symbolKey "x" "var" "s")) = some (definedBy ["a"]) := by
  cbv

theorem find?_filesOf_straddling : (filesOf straddling.nodes).find? (fun f => straddling.symbols.any fun s =>
    s.key.same (symbolKey "x" "var" "s") && s.standsIn straddling.nodes f) = some "a.py" := by
  cbv

theorem lists_straddling : (∃ m, mergeAll [fileGraph "a" "a.py", fileGraph "b" "b.py"] = .ok m
      ∧ m.Lists .defines (symbolKey "x" "var" "s") "a")
    ∧ ∃ pieces m, straddling.split = .ok pieces ∧ mergeAll (pieces.map (·.2)) = .ok m
      ∧ m.Lists .defines (symbolKey "x" "var" "s") "a" := by
  have hgs : ∀ g ∈ [fileGraph "a" "a.py", fileGraph "b" "b.py"], g.isTyped = true := by decide
  have hfind : straddling.symbols.find? (fun s => s.key.same (symbolKey "x" "var" "s")
      && s.standsIn straddling.nodes "a.py") = some (definedBy ["a", "b"]) := by cbv
  obtain ⟨⟨m, hm, hlists⟩, pieces, m', hsplit, hm', hlists'⟩ :=
    lists_merged hgs (by decide : straddling.isTyped = true) (by decide)
  exact ⟨⟨m, hm, (hlists ..).mpr ⟨_, find?_fileGraphs, text_mem_definedBy.mpr (by decide)⟩⟩,
    pieces, m', hsplit, hm', (hlists' ..).mpr
      ⟨"a.py", _, find?_filesOf_straddling, hfind, text_mem_definedBy.mpr (by decide), by decide⟩⟩

/-- The definition in the second file is lost: of two graphs when they are merged, of one graph when it is split and put
together again. -/
theorem namesake_lost : ((fileGraph "b" "b.py").Lists .defines (symbolKey "x" "var" "s") "b"
      ∧ ∃ m, mergeAll [fileGraph "a" "a.py", fileGraph "b" "b.py"] = .ok m
        ∧ ¬ m.Lists .defines (symbolKey "x" "var" "s") "b")
    ∧ straddling.Lists .defines (symbolKey "x" "var" "s") "b" ∧ fileOf? straddling.nodes "b" = some "b.py"
      ∧ ∃ pieces m, straddling.split = .ok pieces ∧ mergeAll (pieces.map (·.2)) = .ok m
        ∧ ¬ m.Lists .defines (symbolKey "x" "var" "s") "b" := by
  refine ⟨⟨⟨_, List.mem_singleton.mpr rfl, rfl, text_mem_definedBy.mpr (by decide)⟩, ?_⟩,
    ⟨_, List.mem_singleton.mpr rfl, rfl, text_mem_definedBy.mpr (by decide)⟩, by decide, ?_⟩
  · have htyped : ∀ g ∈ [fileGraph "a" "a.py", fileGraph "b" "b.py"], g.isTyped = true := by decide
    obtain ⟨m, hm, hlists⟩ := lists_mergeAll fun g hg => fit_of_isTyped (htyped g hg)
    refine ⟨m, hm, fun h => ?_⟩
    obtain ⟨s, hs, hb⟩ := (hlists ..).mp h
    obtain rfl := Option.some.inj (find?_fileGraphs.symm.trans hs)
    exact absurd (text_mem_definedBy.mp hb) (by decide)
  · have htyped : straddling.isTyped = true := by decide
    have hplaced : straddling.isPlaced = true := by decide
    obtain ⟨pieces, m, hsplit, hm, hlists⟩ := lists_mergeAll_split htyped hplaced
    refine ⟨pieces, m, hsplit, hm, fun h => ?_⟩
    obtain ⟨f, s, hf, -, -, hb⟩ := (hlists ..).mp h
    obtain rfl := Option.some.inj (find?_filesOf_straddling.symm.trans hf)
    exact absurd hb (by decide)

end Store

end SecScan
