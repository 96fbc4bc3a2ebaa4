import SecScan.Proofs.Ir.Imports

/-!
The steps in which a program graph is made. A draft changes by a few kinds of steps only, each with
the conditions under which it is taken (`Step`): a node is added below one that is there, an entry
is put into a node, an edge is added, a statement is reached from the latest of its scope, a symbol is
touched. No step changes the kind, the parent or the scope of a node (`Steps.stands`). A computation
that makes a part of a graph goes by such steps and adds nodes of imports (`Lowers`).

Whatever is made by steps is sound (`Steps.sound`): nodes are numbered by their places and stand after
their parents, all references are to nodes that are there, the statements listed in a node stand
directly below it, a symbol is entered once for its scope, and control flows between statements in
bodies of one scope (`Draft.Sound`).
-/

namespace SecScan.Ir

open Relation List

variable {i j o p : Nat} {k kind name scope : String} {parent : Option Nat} {a : Attr Nat}
  {n : Node Nat} {nodes : Array (Node Nat)} {f : Symbol Nat → Symbol Nat}

/-- Kinds of the nodes that have a body of their own. -/
def isBody (kind : String) : Bool := ["Module", "Function", "Class"].contains kind

/-- The name of a body; a module is called `module`. -/
def Node.bodyName {ρ : Type} (n : Node ρ) : Option String :=
  if n.kind = "Module" then some "module" else n.text? "name"

/-! ## What a node refers to -/

namespace Attr

variable {ρ : Type}

@[simp] theorem refs_data (v : Value) : (Attr.data v : Attr ρ).refs = [] := rfl

@[simp] theorem refs_text (s : String) : (Attr.text s : Attr ρ).refs = [] := rfl

@[simp] theorem refs_texts (l : List String) : (Attr.texts l : Attr ρ).refs = [] := rfl

@[simp] theorem refs_flag (b : Bool) : (Attr.flag b : Attr ρ).refs = [] := rfl

@[simp] theorem refs_ref (id : ρ) : (Attr.ref id).refs = [id] := rfl

@[simp] theorem refs_opt (id : Option ρ) : (Attr.opt id).refs = id.toList := rfl

@[simp] theorem refs_nodes (ids : List (Option ρ)) : (Attr.cell (.nodes ids)).refs = ids.filterMap id := rfl

@[simp] theorem refs_list (ids : List ρ) : (Attr.list ids).refs = ids := by simp [Attr.list, refs, Cell.refs]

@[simp] theorem refs_rows_nil : (Attr.rows [] : Attr ρ).refs = [] := rfl

@[simp] theorem refs_rows_cons (row : List (String × Cell ρ)) (rows : List (List (String × Cell ρ))) :
    (Attr.rows (row :: rows)).refs = row.flatMap (fun e => e.2.refs) ++ (Attr.rows rows).refs := rfl

end Attr

namespace Node

variable {ρ : Type} (n : Node ρ)

def refs : List ρ := n.attrs.flatMap fun a => a.2.refs

/-- The nodes that a node refers to under a key. -/
def refsAt (k : String) : List ρ := ((n.attr? k).map Attr.refs).getD []

def listed : List ρ := n.refsAt "body_ids" ++ n.refsAt "stmt_ids"

theorem attr?_setAttr (k k' : String) (a : Attr ρ) :
    (n.setAttr k a).attr? k' = if k' = k then some a else n.attr? k' := lookup_putField k k' a n.attrs

theorem refsAt_setAttr (k k' : String) (a : Attr ρ) :
    (n.setAttr k a).refsAt k' = if k' = k then a.refs else n.refsAt k' := by
  unfold refsAt
  rw [attr?_setAttr]
  split <;> rfl

variable {n : Node ρ}

theorem mem_refs_setAttr {a : Attr ρ} {r : ρ}
    (h : r ∈ (n.setAttr k a).refs) : r ∈ a.refs ∨ r ∈ n.refs := by
  obtain ⟨e, he, hr⟩ := mem_flatMap.mp h
  rcases mem_putField he with rfl | he
  · exact .inl hr
  · exact .inr (mem_flatMap.mpr ⟨e, he, hr⟩)

theorem bodyName_setAttr (hk : k ≠ "name") (a : Attr ρ) : (n.setAttr k a).bodyName = n.bodyName := by
  unfold bodyName text?
  rw [attr?_setAttr, if_neg hk.symm]
  rfl

theorem importRow_setAttr (hk : k ≠ "names") (a : Attr ρ) : (n.setAttr k a).importRow = n.importRow := by
  unfold importRow
  rw [attr?_setAttr, if_neg hk.symm]
  rfl

theorem refsAt_eq_nil (h : ∀ a ∈ n.attrs, a.1 = k → a.2.refs = []) : n.refsAt k = [] := by
  unfold refsAt attr?
  cases hk : n.attrs.lookup k with
  | none => rfl
  | some a =>
    obtain ⟨l, l', heq, -⟩ := lookup_eq_some_iff.mp hk
    exact h (k, a) (by simp [heq]) rfl

end Node

namespace Draft

variable {d d' d'' : Draft}

/-! ## Nodes and bodies -/

/-- The draft has a node of this kind, parent and scope. -/
def Stands (d : Draft) (i : Nat) (kind : String) (parent : Option Nat) (scope : String) : Prop :=
  ∃ n, d.nodes[i]? = some n ∧ n.kind = kind ∧ n.parent = parent ∧ n.scope = scope

@[grind →] theorem Stands.lt (h : d.Stands i kind parent scope) : i < d.nodes.size := by
  obtain ⟨n, hn, -⟩ := h
  exact (Array.getElem?_eq_some_iff.mp hn).1

def Child (d : Draft) (p i : Nat) : Prop := ∃ kind scope, d.Stands i kind (some p) scope

@[grind →] theorem Child.lt (h : d.Child p i) : i < d.nodes.size := by
  obtain ⟨kind, scope, h⟩ := h
  exact h.lt

/-- What is put directly below `p` belongs to the body of `o`. -/
inductive Body (d : Draft) : Nat → Nat → Prop where
  | opens {p : Nat} {kind : String} {parent : Option Nat} {scope : String} :
      d.Stands p kind parent scope → isBody kind = true → Body d p p
  | inner {p q o : Nat} {kind scope : String} :
      d.Stands p kind (some q) scope → isBody kind = false → Body d q o → Body d p o

/-- The node belongs to the body of `o`. -/
def Inside (d : Draft) (i o : Nat) : Prop := ∃ p, d.Child p i ∧ d.Body p o

/-- What is put directly below `p` belongs to a body with this scope. -/
def Scoped (d : Draft) (p : Nat) (scope : String) : Prop := ∃ o kind parent, d.Body p o ∧ d.Stands o kind parent scope

theorem Body.lt (h : d.Body p o) : p < d.nodes.size := by
  cases h with
  | opens hs _ => exact hs.lt
  | inner hs _ _ => exact hs.lt

theorem Scoped.lt (h : d.Scoped p scope) : p < d.nodes.size := by
  obtain ⟨o, kind, parent, hbody, -⟩ := h
  exact hbody.lt

theorem Scoped.below {scope' : String} (h : d.Scoped p scope)
    (hi : d.Stands i kind (some p) scope') (hkind : isBody kind = false) : d.Scoped i scope := by
  obtain ⟨o, k, parent, hbody, ho⟩ := h
  exact ⟨o, k, parent, .inner hi hkind hbody, ho⟩

/-- An entry that a new node may have: it refers to nodes that are there, and lists no statements
yet. -/
def Entry (d : Draft) (a : String × Attr Nat) : Prop :=
  (∀ r ∈ a.2.refs, r < d.nodes.size) ∧ (a.1 = "body_ids" ∨ a.1 = "stmt_ids" → a.2.refs = [])

theorem entry_of_refs {a : String × Attr Nat} (h : a.2.refs = []) : d.Entry a := ⟨by simp [h], fun _ => h⟩

/-! ## Steps -/

/-- The statement is reached from the latest one of the scope, and is now the latest. -/
def flowed (d : Draft) (scope : String) (id : Nat) : Draft :=
  { d with
    edges := match d.latest.lookup scope with
      | some prev => d.edges.push { source := prev, target := id, kind := "flow", guard := none }
      | none => d.edges
    latest := putField scope id d.latest }

/-- The symbol of a scope is changed, and entered first if it is new. -/
def touched (d : Draft) (name kind scope : String) (f : Symbol Nat → Symbol Nat) : Draft :=
  match d.symbols.findIdx? fun s => s.scope == scope && s.name == name with
  | some i => { d with symbols := d.symbols.modify i f }
  | none => { d with symbols := d.symbols.push (f { name, kind, scope }) }

/-- A change of a symbol that keeps its name and scope, and refers to nodes that are there. -/
structure Touch (d : Draft) (f : Symbol Nat → Symbol Nat) : Prop where
  name : ∀ s, (f s).name = s.name
  scope : ∀ s, (f s).scope = s.scope
  refs : ∀ s, ∀ r ∈ (f s).defs ++ (f s).uses, r ∈ s.defs ++ s.uses ∨ r < d.nodes.size

end Draft

open Draft

inductive Step (d : Draft) : Draft → Prop where
  /-- Only the module's node has no parent, and it is the first. The scope of a body is named after
  it. -/
  | node {n : Node Nat} (id : n.id = d.nodes.size) (parent : ∀ p, n.parent = some p → p < d.nodes.size)
      (root : n.parent = none → d.nodes.size = 0) (module : n.kind = "Module" ↔ n.parent = none)
      (entries : ∀ a ∈ n.attrs, d.Entry a)
      (named : isBody n.kind = true → ∃ name, n.scope = "scope:" ++ name ∧ n.bodyName = some name) :
      Step d { d with nodes := d.nodes.push n }
  | attr {i : Nat} {k : String} {a : Attr Nat} (refs : ∀ r ∈ a.refs, r < d.nodes.size)
      (key : k ≠ "names" ∧ k ≠ "name" ∧ k ≠ "body_ids" ∧ k ≠ "stmt_ids") :
      Step d { d with nodes := d.nodes.modify i (·.setAttr k a) }
  /-- The statements of a body or a block are listed in its node. -/
  | list {i : Nat} {k kind scope : String} {parent : Option Nat} {ids : List Nat}
      (stands : d.Stands i kind parent scope)
      (key : k = "body_ids" ∧ isBody kind = true ∨ k = "stmt_ids" ∧ kind = "Block")
      (children : ∀ r ∈ ids, d.Child i r) (nodup : ids.Nodup) :
      Step d { d with nodes := d.nodes.modify i (·.setAttr k (.list ids)) }
  /-- Control flows inside of a body. -/
  | edge {e : Edge Nat} (source : e.source < d.nodes.size) (target : e.target < d.nodes.size)
      (guard : ∀ x ∈ e.guard, x < d.nodes.size)
      (flow : e.kind = "flow" → ∃ o, d.Inside e.source o ∧ d.Inside e.target o) :
      Step d { d with edges := d.edges.push e }
  | flow {p id : Nat} {scope : String} (child : d.Child p id) (inScope : d.Scoped p scope) : Step d (d.flowed scope id)
  | symbol {name kind scope : String} {f : Symbol Nat → Symbol Nat} (touch : d.Touch f) :
      Step d (d.touched name kind scope f)
  | count {k : Nat} : Step d { d with scopeCount := k }
  | fault {f : Option Fault} : Step d { d with fault := f }

abbrev Steps : Draft → Draft → Prop := ReflTransGen Step

section steps

variable {d d' d'' : Draft}

theorem getElem?_modify_setAttr (h : nodes[j]? = some n) :
    (nodes.modify i (·.setAttr k a))[j]? = some (if i = j then n.setAttr k a else n) := by
  rw [Array.getElem?_modify]
  split <;> simp [h]

theorem stands_modify (h : d.Stands j kind parent scope) :
    Stands { d with nodes := d.nodes.modify i (·.setAttr k a) } j kind parent scope := by
  obtain ⟨n, hn, hfields⟩ := h
  refine ⟨_, getElem?_modify_setAttr hn, ?_⟩
  split
  · exact hfields
  · exact hfields

theorem nodes_touched (name kind scope : String) (f : Symbol Nat → Symbol Nat) :
    (d.touched name kind scope f).nodes = d.nodes ∧ (d.touched name kind scope f).edges = d.edges ∧
      (d.touched name kind scope f).latest = d.latest := by
  unfold touched
  split <;> exact ⟨rfl, rfl, rfl⟩

/-- Only a new node can be one of an import. -/
theorem Step.rows (h : Step d d') (hsize : d'.nodes.size = d.nodes.size) : d'.rows = d.rows := by
  have hmodify : ∀ {i k} {a : Attr Nat}, k ≠ "names" →
      Draft.rows { d with nodes := d.nodes.modify i (·.setAttr k a) } = d.rows := by
    intro i k a hk
    rw [Draft.rows, Draft.rows, Array.toList_modify]
    generalize d.nodes.toList = l
    induction l generalizing i with
    | nil => simp
    | cons n l ih => cases i <;> simp [filterMap_cons, Node.importRow_setAttr hk, ih]
  cases h with
  | node => simp at hsize
  | attr _ key => exact hmodify key.1
  | list _ key => exact hmodify (by rcases key with ⟨rfl, -⟩ | ⟨rfl, -⟩ <;> decide)
  | symbol => rw [Draft.rows, (nodes_touched ..).1, Draft.rows]
  | edge | flow | count | fault => rfl

theorem Step.stands (h : Step d d') (hi : d.Stands i kind parent scope) : d'.Stands i kind parent scope := by
  cases h with
  | node =>
    have hlt := hi.lt
    obtain ⟨n, hn, hfields⟩ := hi
    exact ⟨n, by simp [Array.getElem?_push, hn, Nat.ne_of_lt hlt], hfields⟩
  | attr => exact stands_modify hi
  | list => exact stands_modify hi
  | edge => exact hi
  | flow => exact hi
  | symbol =>
    unfold touched
    split
    · exact hi
    · exact hi
  | count => exact hi
  | fault => exact hi

namespace Steps

variable (h : Steps d d')
include h

theorem trans (h' : Steps d' d'') : Steps d d'' := ReflTransGen.trans h h'

theorem stands (hi : d.Stands i kind parent scope) : d'.Stands i kind parent scope := by
  induction h with
  | refl => exact hi
  | tail _ hstep ih => exact hstep.stands ih

theorem child (hi : d.Child p i) : d'.Child p i := by
  obtain ⟨kind, scope, hi⟩ := hi
  exact ⟨kind, scope, h.stands hi⟩

theorem lt (hi : i < d.nodes.size) : i < d'.nodes.size :=
  (h.stands ⟨d.nodes[i], Array.getElem?_eq_getElem hi, rfl, rfl, rfl⟩).lt

theorem le : d.nodes.size ≤ d'.nodes.size := Nat.le_of_not_lt fun hlt => Nat.lt_irrefl _ (h.lt hlt)

theorem body (hp : d.Body p o) : d'.Body p o := by
  induction hp with
  | opens hs hkind => exact .opens (h.stands hs) hkind
  | inner hs hkind _ ih => exact .inner (h.stands hs) hkind ih

theorem inScope (hp : d.Scoped p scope) : d'.Scoped p scope := by
  obtain ⟨o, kind, parent, hbody, ho⟩ := hp
  exact ⟨o, kind, parent, h.body hbody, h.stands ho⟩

end Steps

end steps

/-! ## Computations that go by steps -/

section lowers

variable {α β : Type} {F F' : Draft → Prop} {m m' : Make α} {f : α → Make β} {mid post post' : α → Draft → Prop}
  {r r' : Set ImportRow}

/-- Where facts hold from now on, the computation goes by steps and adds rows of imports, and what is stated of its
result holds from then on. -/
def Lowers (r : Set ImportRow) (F : Draft → Prop) (m : Make α) (post : α → Draft → Prop) : Prop :=
  ∀ d, (∀ e, Steps d e → F e) → Steps d (m.run d).2 ∧ (∀ x, x ∈ (m.run d).2.rows ↔ x ∈ d.rows ∨ x ∈ r) ∧
    ∀ e, Steps (m.run d).2 e → post (m.run d).1 e

namespace Lowers

theorem pure {a : α} (h : ∀ d, F d → post a d := by grind) : Lowers ∅ F (pure a) post :=
  fun _ hd => ⟨.refl, fun x => (or_iff_left (Set.notMem_empty x)).symm, fun e he => h e (hd e he)⟩

theorem done {a : α} : Lowers ∅ F (Pure.pure a) fun _ _ => True := .pure fun _ _ => trivial

theorem join {post : β → Draft → Prop} (hm : Lowers r F' m mid)
    (hf : ∀ a, Lowers r' (fun d => F d ∧ mid a d) (f a) post) (hF : ∀ d, F d → F' d := by grind) :
    Lowers (r ∪ r') F (m >>= f) post := by
  intro d hd
  obtain ⟨hsteps, hrows, hmid⟩ := hm d fun e he => hF e (hd e he)
  obtain ⟨hsteps', hrows', hpost⟩ := hf _ _ fun e he => ⟨hd e (hsteps.trans he), hmid e he⟩
  refine ⟨hsteps.trans hsteps', fun x => (hrows' x).trans ?_, hpost⟩
  rw [hrows, or_assoc, Set.mem_union]

theorem rows (h : Lowers r F m post) (hr : r = r' := by
    ext
    simp [IsRowIn, IsRowOf, or_and_right, exists_or] <;> rfl) : Lowers r' F m post := hr ▸ h

/-- A computation that adds no import and needs less than what is known. -/
theorem call {post : β → Draft → Prop} (hm : Lowers ∅ F' m mid)
    (hf : ∀ a, Lowers r (fun d => F d ∧ mid a d) (f a) post) (hF : ∀ d, F d → F' d := by grind) :
    Lowers r F (m >>= f) post :=
  (hm.join hf hF).rows (Set.empty_union r)

theorem bind {post : β → Draft → Prop} (hm : Lowers ∅ F m mid)
    (hf : ∀ a, Lowers r (fun d => F d ∧ mid a d) (f a) post) : Lowers r F (m >>= f) post := hm.call hf fun _ => id

theorem imp (h : Lowers r F m post) (himp : ∀ a d, F d → post a d → post' a d) : Lowers r F m post' := by
  intro d hd
  obtain ⟨hsteps, hrows, hpost⟩ := h d hd
  exact ⟨hsteps, hrows, fun e he => himp _ e (hd e (hsteps.trans he)) (hpost e he)⟩

theorem weaken (h : Lowers r F' m post) (hF : ∀ d, F d → F' d := by grind) : Lowers r F m post :=
  fun d hd => h d fun e he => hF e (hd e he)

theorem step (h : ∀ d, F d → Step d (m.run d).2)
    (hsize : ∀ d, (m.run d).2.nodes.size = d.nodes.size) : Lowers ∅ F m fun _ _ => True := by
  intro d hd
  have hstep := h d (hd d .refl)
  exact ⟨.single hstep, by simp [hstep.rows (hsize d)], fun _ _ => trivial⟩

theorem ite {c : Bool} (h : Lowers r F m post) (h' : Lowers r F m' post) :
    Lowers r F (if c = true then m else m') post := by
  cases c with
  | true => exact h
  | false => exact h'

theorem forM {l : List α} {f : α → Make PUnit} (h : ∀ x ∈ l, Lowers ∅ F (f x) fun _ _ => True) :
    Lowers ∅ F (l.forM f) fun _ _ => True := by
  induction l with
  | nil => exact .done
  | cons x l ih =>
    exact (h x mem_cons_self).bind fun _ => (ih fun y hy => h y (mem_cons_of_mem x hy)).weaken fun _ => And.left

theorem mapM {l : List α} (h : ∀ x, Lowers ∅ F (f x) fun _ _ => True) : Lowers ∅ F (l.mapM f) fun _ _ => True := by
  induction l with
  | nil => exact .done
  | cons x l ih =>
    rw [mapM_cons]
    exact (h x).bind fun _ => ih.call (fun _ => .done) fun _ => And.left

theorem option {o : Option α} {f : α → Make PUnit} (h : ∀ x ∈ o, Lowers ∅ F (f x) fun _ _ => True) :
    Lowers ∅ F (o.forM f) fun _ _ => True := by
  cases o with
  | none => exact .done
  | some x => exact h x rfl

end Lowers

end lowers

/-! ## The invariant -/

namespace Draft

variable {d d' : Draft}

def Within (d : Draft) (i : Nat) (scope : String) : Prop := ∃ p, d.Child p i ∧ d.Scoped p scope

theorem Within.lt (h : d.Within i scope) : i < d.nodes.size := by
  obtain ⟨p, hchild, -⟩ := h
  exact hchild.lt

theorem Body.owner (h : d.Body p o) : ∃ kind parent scope, d.Stands o kind parent scope := by
  induction h with
  | opens hs _ => exact ⟨_, _, _, hs⟩
  | inner _ _ _ ih => exact ih

/-- What holds of the node at a place. -/
structure Proper (d : Draft) (i : Nat) (n : Node Nat) : Prop where
  id : n.id = i
  parent : ∀ p, n.parent = some p → p < i
  root : n.parent = none → i = 0
  module : n.kind = "Module" ↔ n.parent = none
  refs : ∀ r ∈ n.refs, r < d.nodes.size
  bodies : n.refsAt "body_ids" ≠ [] → isBody n.kind = true
  blocks : n.refsAt "stmt_ids" ≠ [] → n.kind = "Block"
  children : ∀ r ∈ n.listed, d.Child i r
  nodup : n.listed.Nodup
  named : isBody n.kind = true → ∃ name, n.scope = "scope:" ++ name ∧ n.bodyName = some name

/-- An edge joins nodes that are there; control flows between bodies of one scope. -/
structure Joins (d : Draft) (e : Edge Nat) : Prop where
  source : e.source < d.nodes.size
  target : e.target < d.nodes.size
  guard : ∀ x ∈ e.guard, x < d.nodes.size
  flow : e.kind = "flow" → ∃ scope, d.Within e.source scope ∧ d.Within e.target scope

/-- Symbols are told apart by their scope and name. -/
def keys (d : Draft) : List (String × String) := d.symbols.toList.map fun s => (s.scope, s.name)

structure Sound (d : Draft) : Prop where
  node : ∀ {i n}, d.nodes[i]? = some n → d.Proper i n
  edge : ∀ e ∈ d.edges, d.Joins e
  latest : ∀ {scope i}, d.latest.lookup scope = some i → d.Within i scope
  symbol : ∀ s ∈ d.symbols, ∀ r ∈ s.defs ++ s.uses, r < d.nodes.size
  keys : d.keys.Nodup

theorem sound_empty : Sound {} where
  node h := by simp at h
  edge e he := by simp at he
  latest h := by simp at h
  symbol s hs := by simp at hs
  keys := .nil

end Draft

section sound

variable {d d' : Draft}

theorem Steps.within (h : Steps d d') (hi : d.Within i scope) : d'.Within i scope := by
  obtain ⟨p, hchild, hscoped⟩ := hi
  exact ⟨p, h.child hchild, h.inScope hscoped⟩

theorem Draft.Proper.later (h : d.Proper i n) (hd : Steps d d') : d'.Proper i n :=
  { h with
    refs := fun r hr => hd.lt (h.refs r hr)
    children := fun r hr => hd.child (h.children r hr) }

theorem Draft.Joins.later {e : Edge Nat} (h : d.Joins e) (hd : Steps d d') : d'.Joins e where
  source := hd.lt h.source
  target := hd.lt h.target
  guard x hx := hd.lt (h.guard x hx)
  flow hkind := by
    obtain ⟨scope, hs, ht⟩ := h.flow hkind
    exact ⟨scope, hd.within hs, hd.within ht⟩

/-- What is not changed stays sound, so only what is new is to be checked. -/
theorem Draft.Sound.later (h : d.Sound) (hd : Steps d d')
    (hnode : ∀ i n, d'.nodes[i]? = some n → d.nodes[i]? = some n ∨ d'.Proper i n := by exact fun _ _ => .inl)
    (hedge : ∀ e ∈ d'.edges, e ∈ d.edges ∨ d'.Joins e := by exact fun _ => .inl)
    (hlatest : ∀ scope i, d'.latest.lookup scope = some i → d.latest.lookup scope = some i ∨ d'.Within i scope := by
      exact fun _ _ => .inl)
    (hsymbol : ∀ s ∈ d'.symbols, ∀ r ∈ s.defs ++ s.uses, (∃ s' ∈ d.symbols, r ∈ s'.defs ++ s'.uses) ∨ r < d'.nodes.size
      := by exact fun s hs r hr => .inl ⟨s, hs, hr⟩) (hkeys : d'.keys.Nodup := by exact h.keys) : d'.Sound where
  node hn := by
    rcases hnode _ _ hn with hn | hn
    · exact (h.node hn).later hd
    · exact hn
  edge e he := by
    rcases hedge e he with he | he
    · exact (h.edge e he).later hd
    · exact he
  latest hi := by
    rcases hlatest _ _ hi with hi | hi
    · exact hd.within (h.latest hi)
    · exact hi
  symbol s hs r hr := by
    rcases hsymbol s hs r hr with ⟨s', hs', hr'⟩ | hr'
    · exact hd.lt (h.symbol s' hs' r hr')
    · exact hr'
  keys := hkeys

/-! ## Steps keep it -/

/-- A new node lists nothing. -/
theorem proper_new (hd : Steps d d') (id : n.id = d.nodes.size)
    (parent : ∀ p, n.parent = some p → p < d.nodes.size) (root : n.parent = none → d.nodes.size = 0)
    (module : n.kind = "Module" ↔ n.parent = none) (entries : ∀ a ∈ n.attrs, d.Entry a)
    (named : isBody n.kind = true → ∃ name, n.scope = "scope:" ++ name ∧ n.bodyName = some name) :
    d'.Proper d.nodes.size n := by
  have hbody : n.refsAt "body_ids" = [] := Node.refsAt_eq_nil fun a ha hkey => (entries a ha).2 (.inl hkey)
  have hstmt : n.refsAt "stmt_ids" = [] := Node.refsAt_eq_nil fun a ha hkey => (entries a ha).2 (.inr hkey)
  have hlisted : n.listed = [] := by simp [Node.listed, hbody, hstmt]
  refine ⟨id, parent, root, module, ?_, by simp [hbody], by simp [hstmt], by simp [hlisted], by simp [hlisted], named⟩
  intro r hr
  obtain ⟨a, ha, hra⟩ := mem_flatMap.mp hr
  exact hd.lt ((entries a ha).1 r hra)

/-- An entry that lists no statements. -/
theorem Draft.Proper.attr (h : d.Proper i n) (refs : ∀ r ∈ a.refs, r < d.nodes.size)
    (key : k ≠ "names" ∧ k ≠ "name" ∧ k ≠ "body_ids" ∧ k ≠ "stmt_ids") : d.Proper i (n.setAttr k a) := by
  obtain ⟨-, hname, hbody, hstmt⟩ := key
  have hbody : (n.setAttr k a).refsAt "body_ids" = n.refsAt "body_ids" := by rw [Node.refsAt_setAttr, if_neg hbody.symm]
  have hstmt : (n.setAttr k a).refsAt "stmt_ids" = n.refsAt "stmt_ids" := by rw [Node.refsAt_setAttr, if_neg hstmt.symm]
  have hlisted : (n.setAttr k a).listed = n.listed := by simp [Node.listed, hbody, hstmt]
  refine ⟨h.id, h.parent, h.root, h.module, ?_, ?_, ?_, ?_, ?_, ?_⟩
  · intro r hr
    exact (Node.mem_refs_setAttr hr).elim (refs r) (h.refs r)
  · exact hbody ▸ h.bodies
  · exact hstmt ▸ h.blocks
  · exact hlisted ▸ h.children
  · exact hlisted ▸ h.nodup
  · rw [Node.bodyName_setAttr hname]
    exact h.named

/-- A list of statements. The other key of the node stays empty, as it is for nodes of another
kind. -/
theorem Draft.Proper.list {ids : List Nat} (h : d.Proper i n)
    (key : k = "body_ids" ∧ isBody n.kind = true ∨ k = "stmt_ids" ∧ n.kind = "Block")
    (children : ∀ r ∈ ids, d.Child i r) (nodup : ids.Nodup) :
    d.Proper i (n.setAttr k (.list ids)) := by
  have hname : k ≠ "name" := by rcases key with ⟨rfl, -⟩ | ⟨rfl, -⟩ <;> decide
  have hbody : (n.setAttr k (.list ids)).refsAt "body_ids" ≠ [] → isBody n.kind = true := by
    rcases key with ⟨-, hkind⟩ | ⟨rfl, -⟩
    · exact fun _ => hkind
    · rw [Node.refsAt_setAttr, if_neg (by decide)]
      exact h.bodies
  have hstmt : (n.setAttr k (.list ids)).refsAt "stmt_ids" ≠ [] → n.kind = "Block" := by
    rcases key with ⟨rfl, -⟩ | ⟨-, hkind⟩
    · rw [Node.refsAt_setAttr, if_neg (by decide)]
      exact h.blocks
    · exact fun _ => hkind
  have hlisted : (n.setAttr k (.list ids)).listed = ids := by
    unfold Node.listed
    rcases key with ⟨rfl, hkind⟩ | ⟨rfl, hkind⟩
    · have hnil : n.refsAt "stmt_ids" = [] := Decidable.byContradiction fun hne => by
        rw [h.blocks hne] at hkind
        exact absurd hkind (by decide)
      simp [Node.refsAt_setAttr, hnil]
    · have hnil : n.refsAt "body_ids" = [] := Decidable.byContradiction fun hne => by
        have hbody := h.bodies hne
        rw [hkind] at hbody
        exact absurd hbody (by decide)
      simp [Node.refsAt_setAttr, hnil]
  refine ⟨h.id, h.parent, h.root, h.module, ?_, hbody, hstmt, ?_, ?_, ?_⟩
  · intro r hr
    rcases Node.mem_refs_setAttr hr with hr | hr
    · exact (children r (by simpa using hr)).lt
    · exact h.refs r hr
  · rw [hlisted]
    exact children
  · rw [hlisted]
    exact nodup
  · rw [Node.bodyName_setAttr hname]
    exact h.named

theorem getElem?_of_modify {n' : Node Nat} (h : (nodes.modify i (·.setAttr k a))[j]? = some n') :
    nodes[j]? = some n' ∨ i = j ∧ ∃ n, nodes[j]? = some n ∧ n' = n.setAttr k a := by
  rw [Array.getElem?_modify] at h
  split at h
  next heq =>
    obtain ⟨n, hn, rfl⟩ := Option.map_eq_some_iff.mp h
    exact .inr ⟨heq, n, hn, rfl⟩
  next => exact .inl h

theorem mem_touched {s : Symbol Nat} (h : s ∈ (d.touched name kind scope f).symbols) :
    s ∈ d.symbols ∨ (∃ s' ∈ d.symbols, s = f s') ∨ s = f { name, kind, scope } := by
  unfold touched at h
  split at h
  next i _ =>
    obtain ⟨j, hj⟩ := Array.mem_iff_getElem?.mp h
    rw [Array.getElem?_modify] at hj
    split at hj
    next =>
      obtain ⟨s', hs', rfl⟩ := Option.map_eq_some_iff.mp hj
      exact .inr (.inl ⟨s', Array.mem_of_getElem? hs', rfl⟩)
    next => exact .inl (Array.mem_of_getElem? hj)
  next =>
    rcases Array.mem_push.mp h with h | h
    · exact .inl h
    · exact .inr (.inr h)

/-- A symbol is entered only if the scope has none of that name. -/
theorem nodup_keys_touched (hf : d.Touch f) (h : d.keys.Nodup) : (d.touched name kind scope f).keys.Nodup := by
  have hkey : ∀ s, ((f s).scope, (f s).name) = (s.scope, s.name) := fun s => by rw [hf.scope, hf.name]
  unfold touched
  split
  next i _ =>
    have hkeys : Draft.keys { d with symbols := d.symbols.modify i f } = d.keys := by
      refine ext_getElem? fun j => ?_
      simp only [Draft.keys, getElem?_map, Array.getElem?_toList, Array.getElem?_modify]
      split
      · simp [Function.comp_def, hkey]
      · rfl
    rwa [hkeys]
  next hnone =>
    have hkeys : Draft.keys { d with symbols := d.symbols.push (f { name, kind, scope }) } =
        d.keys ++ [(scope, name)] := by
      simp [Draft.keys, hf.scope, hf.name]
    have hnew : (scope, name) ∉ d.keys := by
      intro hmem
      obtain ⟨s, hs, heq⟩ := mem_map.mp hmem
      have hfound := Array.findIdx?_eq_none_iff.mp hnone s (Array.mem_toList_iff.mp hs)
      simp_all
    rw [hkeys]
    refine nodup_append.mpr ⟨h, by simp, ?_⟩
    rintro a ha b hb rfl
    exact hnew (mem_singleton.mp hb ▸ ha)

theorem Step.sound (hstep : Step d d') (h : d.Sound) : d'.Sound := by
  have hd : Steps d d' := .single hstep
  cases hstep with
  | @node n id parent root module entries named =>
    refine h.later hd fun i n' hi => ?_
    rw [Array.getElem?_push] at hi
    split at hi
    next hsize =>
      obtain ⟨rfl⟩ := hi
      exact .inr (hsize ▸ proper_new hd id parent root module entries named)
    next => exact .inl hi
  | @attr i k a refs key =>
    refine h.later hd fun j n' hj => ?_
    rcases getElem?_of_modify hj with hj | ⟨-, n, hn, rfl⟩
    · exact .inl hj
    · exact .inr (((h.node hn).attr refs key).later hd)
  | @list i k kind scope parent ids stands key children nodup =>
    refine h.later hd fun j n' hj => ?_
    rcases getElem?_of_modify hj with hj | ⟨rfl, n, hn, rfl⟩
    · exact .inl hj
    · obtain ⟨n₀, hn₀, rfl, -⟩ := stands
      obtain rfl : n₀ = n := Option.some.inj (hn₀.symm.trans hn)
      exact .inr (((h.node hn).list key children nodup).later hd)
  | @edge e source target guard flow =>
    refine h.later hd (fun _ _ => .inl) fun e' he => ?_
    rcases Array.mem_push.mp he with he | rfl
    · exact .inl he
    · refine .inr (Joins.later ⟨source, target, guard, fun hkind => ?_⟩ hd)
      obtain ⟨o, ⟨p, hp, hbody⟩, q, hq, hbody'⟩ := flow hkind
      obtain ⟨kind, parent, scope, ho⟩ := hbody.owner
      exact ⟨scope, ⟨p, hp, o, kind, parent, hbody, ho⟩, q, hq, o, kind, parent, hbody', ho⟩
  | @flow p id scope child inScope =>
    have hid : d.Within id scope := ⟨p, child, inScope⟩
    refine h.later hd (fun _ _ => .inl) (fun e he => ?_) fun scope' i hi => ?_
    · unfold flowed at he
      dsimp only at he
      split at he
      next prev hprev =>
        rcases Array.mem_push.mp he with he | rfl
        · exact .inl he
        · have hlast := h.latest hprev
          exact .inr (Joins.later ⟨hlast.lt, hid.lt, by simp, fun _ => ⟨scope, hlast, hid⟩⟩ hd)
      next => exact .inl he
    · simp only [flowed, lookup_putField] at hi
      split at hi
      next heq =>
        obtain ⟨rfl⟩ := hi
        exact .inr (heq ▸ hd.within hid)
      next => exact .inl hi
  | @symbol name kind scope f touch =>
    obtain ⟨hnodes, hedges, hlatest⟩ := nodes_touched (d := d) name kind scope f
    refine h.later hd (fun _ _ hi => .inl (hnodes ▸ hi)) (fun _ he => .inl (hedges ▸ he))
      (fun _ _ hi => .inl (hlatest ▸ hi)) (fun s hs r hr => ?_) (nodup_keys_touched touch h.keys)
    rw [hnodes]
    rcases mem_touched hs with hs | ⟨s', hs', rfl⟩ | rfl
    · exact .inl ⟨s, hs, hr⟩
    · exact (touch.refs s' r hr).imp_left fun hr' => ⟨s', hs', hr'⟩
    · exact (touch.refs _ r hr).imp_left fun hr' => by simp at hr'
  | count | fault => exact h.later hd

theorem Steps.sound (hsteps : Steps d d') (h : d.Sound) : d'.Sound := by
  induction hsteps with
  | refl => exact h
  | tail _ hstep ih => exact hstep.sound ih

end sound

end SecScan.Ir
