import SecScan.Proofs.Ir.References

/-!
Aliases of system calls. What the nodes before a call tell in a scope decides which names stand for what there, and
the latest binding is in force (`aliases_learned`). A binding that cannot be followed tells nothing, so a call of a
plain name is resolved by the latest binding of the name that could be followed (`resolved_latest`). What a function
imports itself can hide the imports of the module from its assignments (`resolved_assigned`).
-/

namespace SecScan.Ir

open List
open Syntax (Alias Expr Stmt)

variable {nodes : Array (Node Nat)} {f : String} {i : Nat} {n : Node Nat} {g : Graph Nat} {σ : Scopes} {s s' : String}

/-! ## What nodes tell -/

abbrev Told := List (Option String × String)

/-- What the latest binding of a name says that it stands for. -/
def Told.latest (t : Told) (f : String) : Option String :=
  (t.filterMap fun e => e.1.map (·, e.2)).reverse.lookup f

/-- What the nodes tell in a scope, in order. -/
def told (nodes : Array (Node Nat)) (s : String) : Scopes → List (Node Nat) → Told
  | _, [] => []
  | σ, n :: l => (if n.scope = s then tells nodes σ n else []) ++ told nodes s (learnNode nodes σ n) l

theorem latest_append (t t' : Told) : (t ++ t').latest f = (t'.latest f).or (t.latest f) := by
  simp [Told.latest, lookup_append]

namespace Scopes

theorem bindings_put (b : Bindings) : bindings (putField s b σ) s' = if s' = s then b else σ.bindings s' := by
  unfold bindings
  rw [lookup_putField]
  split <;> rfl

theorem aliases_tell (name : Option String) (path : String) : ((σ.tell s name path).bindings s').aliases.lookup f =
    (Told.latest (if s = s' then [(name, path)] else []) f).or ((σ.bindings s').aliases.lookup f) := by
  have hlearn : ((σ.learn s path).bindings s').aliases = (σ.bindings s').aliases := by
    unfold learn
    dsimp only
    split
    · rfl
    · rw [bindings_put]
      split <;> simp_all
  cases name with
  | none => split <;> simp [tell, hlearn, Told.latest]
  | some x =>
    by_cases hs : s = s'
    · subst hs
      by_cases hx : f = x
      · simp [tell, bind, bindings_put, lookup_putField, Told.latest, hx]
      · simp [tell, bind, bindings_put, lookup_putField, hlearn, Told.latest, hx, beq_false_of_ne hx]
    · simp [tell, bind, bindings_put, hlearn, Told.latest, hs, Ne.symm hs]

theorem aliases_tellAll (t : Told) : ((σ.tellAll s t).bindings s').aliases.lookup f =
    (Told.latest (if s = s' then t else []) f).or ((σ.bindings s').aliases.lookup f) := by
  induction t generalizing σ with
  | nil => simp [tellAll, Told.latest]
  | cons e t ih =>
    refine ih.trans ?_
    rw [aliases_tell, ← Option.or_assoc, ← latest_append]
    split <;> rfl

end Scopes

/-- The latest binding that was told is in force. -/
theorem aliases_learned (l : List (Node Nat)) : ((l.foldl (learnNode nodes) σ).bindings s).aliases.lookup f =
    ((told nodes s σ l).latest f).or ((σ.bindings s).aliases.lookup f) := by
  induction l generalizing σ with
  | nil => rfl
  | cons n l ih => rw [foldl_cons, ih, told, latest_append, Option.or_assoc, ← Scopes.aliases_tellAll, learnNode]

/-! ## Imports and assignments -/

theorem filled_optText (x : Option String) : filled (.optText x) = x.filter (· != "") := by
  rcases x with - | x
  · rfl
  · by_cases hx : x = "" <;> simp [filled, Value.optText, Value.ofOption, Option.filter, hx]

/-- The scope or the module knows a beginning of the path, and the scope does not know other paths only. -/
def Scopes.Knows (σ : Scopes) (s path : String) : Prop :=
  (∃ q ∈ beginnings path, ∃ s' ∈ chain s, q ∈ (σ.bindings s').known) ∧
    ((σ.bindings s).known = [] ∨ ∃ q ∈ beginnings path, q ∈ (σ.bindings s).known)

theorem Scopes.isKnown_iff {path : String} : σ.isKnown s path = true ↔ σ.Knows s path := by
  unfold isKnown Knows chain
  by_cases hs : s = "scope:module" <;> cases hknown : (σ.bindings s).known with
  | nil => cases hmodule : (σ.bindings "scope:module").known <;> simp_all
  | cons q known => grind

/-- What a name with attributes is assigned as: under an alias what that stands for, and otherwise only with attributes
or if it was imported. -/
def Scopes.Assigns (σ : Scopes) (s M : String) (attrs : List String) (path : String) : Prop :=
  path = String.intercalate "." ((σ.alias? s M).getD M :: attrs)
    ∧ (attrs ≠ [] ∨ σ.alias? s M ≠ none ∨ ∃ s' ∈ chain s, M ∈ (σ.bindings s').known) ∧ σ.Knows s path

theorem Scopes.filter_meant {M path : String} {attrs : List String} :
    (σ.meant s (M, attrs)).filter (σ.isKnown s) = some path ↔ σ.Assigns s M attrs path := by
  have himported : σ.isImported s M = true ↔ ∃ s' ∈ chain s, M ∈ (σ.bindings s').known := by simp [isImported]
  have hplain : String.intercalate "." [M] = M := rfl
  rw [Option.filter_eq_some_iff, isKnown_iff, Assigns, ← and_assoc, ← himported, eq_comm (a := path)]
  refine and_congr_left fun _ => ?_
  unfold meant denotes
  cases attrs with
  | nil => cases halias : σ.alias? s M <;> cases hknown : σ.isImported s M <;> simp_all
  | cons a attrs => simp

/-- What a node tells: an import of modules, or of names from one, and an assignment. -/
structure Tells (nodes : Array (Node Nat)) (σ : Scopes) (n : Node Nat) : Prop where
  imported : n.kind = "Import" → ∀ l : List Alias, n.attr? "names" = some (.texts (l.map (·.name))) →
    n.attr? "asnames" = some (.data (.list (l.map (.optText ·.asName)))) → tells nodes σ n = l.map fun a =>
      let x := a.asName.filter (· != "")
      ((n.text? "module").filter (· != "")).elim (x, a.name) fun m => (some (x.getD a.name), m ++ "." ++ a.name)
  assigned : n.kind = "Assign" → ∀ x path, (x, path) ∈ tells nodes σ n ↔ (∃ f ∈ assignTargets n, x = some f) ∧
    ∃ M attrs, pathAt nodes n "value_id" = some (M, attrs) ∧ σ.Assigns n.scope M attrs path
  others : n.kind ≠ "Import" → n.kind ≠ "Assign" → tells nodes σ n = []

theorem tells_node (nodes : Array (Node Nat)) (σ : Scopes) (n : Node Nat) : Tells nodes σ n where
  imported hkind l hnames hasNames := by
    rw [tells, hkind, beq_self_eq_true, if_pos rfl, importTells, namesAt, namesAt, hnames, hasNames]
    simp only [Attr.texts, Attr.data, Value.texts, Value.items, map_map, zip_map', filterMap_map, Function.comp_def,
      filled_optText]
    rw [← filterMap_eq_map]
    cases (n.text? "module").filter (· != "") <;> rfl
  assigned hkind x path := by
    have htells : (x, path) ∈ tells nodes σ n ↔ (∃ f ∈ assignTargets n, x = some f) ∧
        ((pathAt nodes n "value_id").bind (σ.meant n.scope)).filter (σ.isKnown n.scope) = some path := by
      rw [tells, hkind, if_neg (by decide), if_pos (by decide), assignTells]
      cases (pathAt nodes n "value_id").bind (σ.meant n.scope) with
      | none => simp
      | some q => by_cases hq : σ.isKnown n.scope q <;> simp [Option.filter, hq, eq_comm, ← exists_and_right, and_assoc]
    rw [htells]
    rcases pathAt nodes n "value_id" with - | ⟨M, attrs⟩
    · simp
    · rw [Option.bind_some, Scopes.filter_meant]
      simp
  others himport hassign := by simp [tells, himport, hassign]

/-! ## Calls -/

/-- The node of a call, marked with what its name stands for if that is a system call. -/
def Node.resolvedAs (n : Node Nat) (target : Option String) : Node Nat :=
  match target.filter systemCalls.contains with
  | some path => (n.setAttr "resolved_callee" (.text path)).addTags ["sink", "alias"]
  | none => n

/-- A call of a plain name is marked with what the name stands for. -/
theorem markNode_call (hkind : n.kind = "Call") (hcallee : pathAt nodes n "callee_id" = some (f, [])) :
    markNode nodes σ n = n.resolvedAs (σ.alias? n.scope f) := by
  unfold markNode Node.resolvedAs Scopes.denotes
  rw [hkind, hcallee, beq_self_eq_true, if_pos rfl]
  dsimp only
  cases σ.alias? n.scope f with
  | none => simp
  | some path => by_cases hpath : path ∈ systemCalls <;> simp [Option.filter, hpath]

/-- A call of a plain name is resolved by the latest binding of the name that could be followed, in its own scope or
else in that of the module. -/
theorem resolved_latest (hnode : g.nodes[i]? = some n) (hkind : n.kind = "Call")
    (hcallee : pathAt g.nodes.toArray n "callee_id" = some (f, [])) : g.resolveAliases.nodes[i]? = some (n.resolvedAs
      ((Scopes.chain n.scope).findSome? fun s => (told g.nodes.toArray s [] (g.nodes.take i)).latest f))
    ∧ ∀ σ b, Tells g.nodes.toArray σ b := by
  have hlatest (s : String) : (((g.nodes.take i).foldl (learnNode g.nodes.toArray) []).bindings s).aliases.lookup f =
      (told g.nodes.toArray s [] (g.nodes.take i)).latest f := (aliases_learned _).trans Option.or_none
  refine ⟨(getElem?_resolveFrom ..).trans ?_, tells_node _⟩
  rw [hnode, Option.map_some, markNode_call hkind hcallee, Scopes.alias?]
  simp only [hlatest]

def sampleNode (scope kind : String) (attrs : List (String × Attr Nat)) : Node Nat :=
  { id := 0, kind, span := ⟨"m.py", 1, 0, 1, 0⟩, parent := none, scope, attrs }

def sampleCall : Node Nat := sampleNode "scope:run" "Call" [("callee_id", .ref 4)]

/-- A function gives another name to a system call of an imported module, and calls it. -/
def sampleNodes : List (Node Nat) :=
  [sampleNode "scope:module" "Import" (importAttrs [⟨default, "os", none⟩]),
    sampleNode "scope:run" "Name" [("name", .text "os")],
    sampleNode "scope:run" "Attribute" [("value_id", .ref 1), ("attr", .text "system")],
    sampleNode "scope:run" "Assign" [("target", .text "f"), ("value_id", .ref 2)],
    sampleNode "scope:run" "Name" [("name", .text "f")], sampleCall]

theorem resolved_latest_sample : (⟨sampleNodes, [], []⟩ : Graph Nat).resolveAliases.nodes[5]? =
    some (sampleCall.resolvedAs (some "os.system")) :=
  (resolved_latest rfl rfl rfl).1.trans (congrArg _ (congrArg _ (by decide +kernel)))

/-- What a node in the graph of a module is resolved as, with its kind. -/
def resolvedAt (body : List Stmt) (i : Nat) : Option (String × Option String) :=
  (Graph.ofModule { file := "m.py", detect := fun _ => .ok (none, 0) } ⟨body⟩).toOption.bind fun g =>
    g.resolveAliases.nodes[i]?.map fun n => (n.kind, n.text? "resolved_callee")

def assignF (value : Expr) : Stmt := .assign default [.name default "f" .store] value none

def callF : Stmt := .expr default (.call default (.name default "f" .load) [] [])

/-- The latest binding is passed over: the name was assigned `print`, and is taken for what it was before. -/
theorem rebound_kept : resolvedAt [.importFrom default (some "os") [⟨default, "system", some "f"⟩] none,
    assignF (.name default "print" .load), callF] 5 = some ("Call", some "os.system") := by decide +kernel

/-! ## Assignments -/

theorem Scopes.alias?_tell (path : String) : (σ.tell s (some f) path).alias? s f = some path := by
  obtain ⟨l, hl⟩ : ∃ l, chain s = s :: l := by
    unfold chain
    split <;> exact ⟨_, rfl⟩
  rw [alias?, hl, findSome?_cons, aliases_tell]
  simp [Told.latest]

variable {b : Node Nat} {pre mid rest : List (Node Nat)} {M a : String}

/-- After an assignment of an attribute of a module, a call of the name is resolved as the attribute if the path is
known, and otherwise as before, as long as nothing else is told of the name. -/
theorem resolved_assigned (hnodes : g.nodes = pre ++ b :: mid ++ n :: rest) (hkind : b.kind = "Assign")
    (htargets : assignTargets b = [f]) (hvalue : pathAt g.nodes.toArray b "value_id" = some (M, [a]))
    (hcall : n.kind = "Call") (hcallee : pathAt g.nodes.toArray n "callee_id" = some (f, []))
    (hscope : n.scope = b.scope) :
    let σ := pre.foldl (learnNode g.nodes.toArray) []
    σ.alias? b.scope M = none → (∀ s, (told g.nodes.toArray s (learnNode g.nodes.toArray σ b) mid).latest f = none) →
      ∃ target, g.resolveAliases.nodes[(pre ++ b :: mid).length]? = some (n.resolvedAs target) ∧
        (σ.Knows b.scope (M ++ "." ++ a) → target = some (M ++ "." ++ a)) ∧
        (¬ σ.Knows b.scope (M ++ "." ++ a) → target = σ.alias? b.scope f) := by
  intro σ hM hmid
  have hmeant : σ.meant b.scope (M, [a]) = some (M ++ "." ++ a) := by
    unfold Scopes.meant Scopes.denotes
    rw [hM]
    rfl
  have htells : tells g.nodes.toArray σ b =
      if σ.isKnown b.scope (M ++ "." ++ a) then [(some f, M ++ "." ++ a)] else [] := by
    simp [tells, hkind, assignTells, hvalue, hmeant, htargets]
  have hlater : (mid.foldl (learnNode g.nodes.toArray) (learnNode g.nodes.toArray σ b)).alias? b.scope f =
      (learnNode g.nodes.toArray σ b).alias? b.scope f := by
    simp only [Scopes.alias?, aliases_learned, hmid, Option.none_or]
  refine ⟨(learnNode g.nodes.toArray σ b).alias? b.scope f, ?_, fun h => ?_, fun h => ?_⟩
  · refine (getElem?_resolveFrom ..).trans ?_
    rw [hnodes, getElem?_append_right (Nat.le_refl _), Nat.sub_self, getElem?_cons_zero, Option.map_some, ← hnodes,
      markNode_call hcall hcallee, hscope, hnodes, take_left, ← hnodes, foldl_append, foldl_cons, hlater]
  · rw [learnNode, htells, if_pos (Scopes.isKnown_iff.mpr h)]
    exact Scopes.alias?_tell _
  · rw [learnNode, htells, if_neg fun hk => h (Scopes.isKnown_iff.mp hk)]
    rfl

/-- The module is imported outside of the function. -/
theorem resolved_assigned_sample :
    ((sampleNodes.take 3).foldl (learnNode sampleNodes.toArray) []).Knows "scope:run" "os.system" ∧
      (⟨sampleNodes, [], []⟩ : Graph Nat).resolveAliases.nodes[5]? =
        some (sampleCall.resolvedAs (some "os.system")) := by
  obtain ⟨target, hnode, hknown, -⟩ := @resolved_assigned "f" sampleCall ⟨sampleNodes, [], []⟩ sampleNodes[3]
    (sampleNodes.take 3) [sampleNodes[4]] [] "os" "system" rfl rfl rfl rfl rfl rfl rfl rfl fun s => by
      unfold told
      split <;> rfl
  rw [← Scopes.isKnown_iff] at hknown ⊢
  rw [hknown (by decide +kernel)] at hnode
  exact ⟨by decide +kernel, hnode⟩

/-- An import of the function's own hides the one of the module. -/
theorem own_import_hides : resolvedAt [.importNames default [⟨default, "os", none⟩],
    .funcDef default false "run" (.mk [] [] none [] [] none []) [.importNames default [⟨default, "json", none⟩],
      assignF (.attribute default (.name default "os" .load) "system" .load), callF] [] none none] 8 =
      some ("Call", none) := by decide +kernel

end SecScan.Ir
