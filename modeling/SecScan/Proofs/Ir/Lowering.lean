import SecScan.Proofs.Ir.Steps

/-!
The lowering of a module goes by steps. Expressions and statements leave a new node directly below
their parent (`makes_expr`, `makes_stmt`), the statements of a body in increasing order
(`makes_stmts`). Expressions add no import, and statements those that stand in them. So the whole graph of a module is
made by steps, with the nodes of its imports (`makes_module`).
-/

namespace SecScan.Ir

open Syntax Draft Relation

variable {kind label name scope : String} {i j id k p t : Nat} {attrs : List (String × Attr Nat)}
  {loc : Option Loc} {parent : Option Nat} {body orelse : List Stmt} {fill : Nat → Make (List Nat)}
variable {d : Draft} {env : Env} {F : Draft → Prop} {r r' : Set ImportRow}

/-! ## Single operations -/

/-- A parent and some nodes that are there. -/
abbrev Below (p k : Nat) (d : Draft) : Prop := p < d.nodes.size ∧ k ≤ d.nodes.size

/-- A node made after the first `k`, directly below `p`. -/
abbrev New (p k id : Nat) (d : Draft) : Prop := k ≤ id ∧ d.Child p id

/-- A node below `p` that opens no body. -/
def Plain (d : Draft) (p i : Nat) : Prop := ∃ kind scope, d.Stands i kind (some p) scope ∧ isBody kind = false

@[grind →] theorem child_of_stands (h : d.Stands i kind (some p) scope) : d.Child p i := ⟨kind, scope, h⟩

@[grind →] theorem Plain.child (h : Plain d p i) : d.Child p i := by
  obtain ⟨kind, scope, h, -⟩ := h
  exact ⟨kind, scope, h⟩

/-- The row of a new node, if it is one of an import. -/
def rowOf (env : Env) (kind : String) (loc : Option Loc) (attrs : List (String × Attr Nat)) : Set ImportRow :=
  {x | x ∈ Node.importRow { id := 0, kind, span := spanAt env.file loc, parent := none, scope := "", attrs }}

section

variable (hkind : isBody kind = true → kind ≠ "Module" ∧
    ∃ name, scope = "scope:" ++ name ∧ attrs.lookup "name" = some (.text name))
  (hp : ∀ d, F d → Below p k d) (hentries : ∀ d, F d → ∀ a ∈ attrs, d.Entry a)
include hkind hp hentries

theorem makes_row : Lowers (rowOf env kind loc attrs) F (addNode env kind loc (some p) scope attrs)
      fun id d => k ≤ id ∧ d.Stands id kind (some p) scope := by
  intro d hd
  have hd := hd d .refl
  have hmodule : kind ≠ "Module" := by
    rintro rfl
    exact (hkind rfl).1 rfl
  refine ⟨.single (.node rfl ?_ (by simp) (by simp [hmodule]) (hentries d hd) fun hbody => ?_), fun x => ?_,
    fun e he => ?_⟩
  · rintro _ ⟨rfl⟩
    exact (hp d hd).1
  · obtain ⟨-, name, hscope, hlookup⟩ := hkind hbody
    refine ⟨name, hscope, ?_⟩
    simp [Node.bodyName, hmodule, Node.text?, Node.attr?, hlookup]
    rfl
  · change x ∈ List.filterMap _ (d.nodes.push _).toList ↔ _
    simp [List.filterMap_append, Draft.rows, rowOf, List.mem_filterMap, Node.importRow, Node.attr?]
  · exact ⟨(hp d hd).2, he.stands ⟨_, Array.getElem?_push_size, rfl, rfl, rfl⟩⟩

theorem makes_node (hplain : kind ≠ "Import" ∧ kind ≠ "ImportFrom" := by decide) :
    Lowers ∅ F (addNode env kind loc (some p) scope attrs) fun id d => k ≤ id ∧ d.Stands id kind (some p) scope :=
  (makes_row hkind hp hentries).rows (by ext; simp [rowOf, Node.importRow, hplain])

end

variable (k) in
/-- A node that opens no body. -/
theorem makes_plain (hkind : isBody kind = false := by rfl) (hp : ∀ d, F d → Below p k d := by grind)
    (hentries : ∀ d, F d → ∀ a ∈ attrs, d.Entry a := by
      intro d hd
      simp [Entry] <;> grind) (hplain : kind ≠ "Import" ∧ kind ≠ "ImportFrom" := by decide) :
    Lowers ∅ F (addNode env kind loc (some p) scope attrs) fun id d => k ≤ id ∧ Plain d p id :=
  (makes_node (by simp [hkind]) hp hentries hplain).imp fun _ _ _ h => ⟨h.1, kind, scope, h.2, hkind⟩

/-- The last node of an expression. -/
theorem makes_last (hkind : isBody kind = false := by rfl) (hp : ∀ d, F d → Below p k d := by grind)
    (hentries : ∀ d, F d → ∀ a ∈ attrs, d.Entry a := by
      intro d hd
      simp [Entry] <;> grind) (hplain : kind ≠ "Import" ∧ kind ≠ "ImportFrom" := by decide) :
    Lowers ∅ F (addNode env kind loc (some p) scope attrs) (New p k) :=
  (makes_plain k hkind hp hentries hplain).imp fun _ _ _ h => ⟨h.1, h.2.child⟩

/-- No import is added, whatever comes out. -/
abbrev Passes {α : Type} (F : Draft → Prop) (x : Make α) : Prop := Lowers ∅ F x fun _ _ => True

theorem makes_note (f : Fault) : Passes F (note f) :=
  .step (fun _ _ => .fault) fun _ => rfl

theorem makes_attempt {α : Type} (default : α) (r : Try α) : Passes F (attempt default r) := by
  cases r with
  | ok a => exact .done
  | error f => exact (makes_note f).bind fun _ => .done

theorem makes_newScope (label : String) : Passes F (newScope env label) :=
  .step (fun _ _ => .count) fun _ => rfl

theorem makes_edge {source target : Nat} {guard : Option Nat} (hkind : kind ≠ "flow" := by decide)
    (h : ∀ d, F d → source < d.nodes.size ∧ target < d.nodes.size ∧ ∀ x, guard = some x → x < d.nodes.size := by
      grind) : Passes F (addEdge source target kind guard) :=
  .step (fun d hd => .edge (h d hd).1 (h d hd).2.1 (h d hd).2.2 fun heq => absurd heq hkind) fun _ => rfl

/-- The nodes belong to one body. -/
def Meet (d : Draft) (i j : Nat) : Prop := ∃ o, d.Inside i o ∧ d.Inside j o

theorem makes_flow {source target : Nat} {guard : Option Nat}
    (h : ∀ d, F d → Meet d source target ∧ ∀ x, guard = some x → x < d.nodes.size := by grind) :
    Passes F (addEdge source target "flow" guard) := by
  refine .step (fun d hd => ?_) fun _ => rfl
  obtain ⟨⟨o, hs, ht⟩, hguard⟩ := h d hd
  obtain ⟨_, hsource, -⟩ := id hs
  obtain ⟨_, htarget, -⟩ := id ht
  exact .edge hsource.lt htarget.lt hguard fun _ => ⟨o, hs, ht⟩

theorem flowTo_run (id : Nat) : ((flowTo env id).run d).2 = d.flowed env.scope id := by
  unfold flowTo flowed
  cases h : d.latest.lookup env.scope with
  | none =>
    simp [h, setLatest]
    rfl
  | some prev =>
    simp [h, addEdge, setLatest]
    rfl

theorem makes_touch {f : Symbol Nat → Symbol Nat} (h : ∀ d, F d → d.Touch f) :
    Passes F (touchSymbol name kind scope f) :=
  .step (fun d hd => .symbol (h d hd)) fun d => congrArg Array.size (nodes_touched (d := d) name kind scope f).1

theorem makes_def (hid : ∀ d, F d → id < d.nodes.size := by grind) : Passes F (addDef name kind scope id) :=
  makes_touch fun d hd => ⟨fun _ => rfl, fun _ => rfl, fun s r hr => by grind⟩

theorem makes_use (hid : ∀ d, F d → id < d.nodes.size := by grind) : Passes F (addUse name kind scope id) :=
  makes_touch fun d hd => ⟨fun _ => rfl, fun _ => rfl, fun s r hr => by grind⟩

theorem makes_defIf (hid : ∀ d, F d → id < d.nodes.size := by grind) : Passes F (addDefIf name kind scope id) :=
  .ite .done (makes_def hid)

/-! ## Expressions -/

theorem makes_targetName (e : Expr) : Passes F (targetName e) := by
  unfold targetName
  split
  · exact .done
  · exact makes_attempt _ _

theorem refs_literalAttrs {limit v : Value} (h : literalAttrs limit v = .ok attrs) : ∀ a ∈ attrs, a.2.refs = [] := by
  cases v with
  | text s =>
    simp only [literalAttrs, bind, Except.bind, pure, Except.pure] at h
    split at h
    · cases h
    · split at h
      -- a long text is cut, unless the limit cannot cut it
      · split at h
        · cases h
        · obtain rfl := Except.ok.inj h
          simp
      · obtain rfl := Except.ok.inj h
        simp
  | _ =>
    obtain rfl := Except.ok.inj h
    simp

theorem makes_literalAttrs (limit v : Value) :
    Lowers ∅ F (attempt [] (literalAttrs limit v)) fun attrs _ => ∀ a ∈ attrs, a.2.refs = [] := by
  cases h : literalAttrs limit v with
  | ok attrs => exact .pure fun _ _ => refs_literalAttrs h
  | error f => exact (makes_note f).bind fun _ => .pure (by simp)

theorem makes_languageAttrs (v : Value) :
    Lowers ∅ F (languageAttrs env v) fun attrs _ => ∀ a ∈ attrs, a.2.refs = [] := by
  unfold languageAttrs
  split
  · refine (makes_attempt _ _).bind fun r => ?_
    split
    · exact .pure (by simp)
    · exact .pure (by simp)
  · exact .pure (by simp)

mutual

/-- An expression leaves a new node below the parent, after the nodes of its parts. -/
theorem makes_expr (e : Expr) {env : Env} {p : Nat} (k : Nat) : Lowers ∅ (Below p k) (lowerExpr env p e) (New p k) := by
  cases e <;> rw [lowerExpr]
  case name l n ctx =>
    refine .bind (makes_plain k) fun id => ?_
    dsimp only
    exact .ite (.bind makes_use fun _ => .pure) .pure
  case constant l v _ =>
    refine .bind (makes_literalAttrs _ _) fun attrs => .bind (makes_languageAttrs v) fun more => makes_last rfl ?_ ?_
    · grind
    · exact fun d h a ha => entry_of_refs ((List.mem_append.mp ha).elim (h.1.2 a) (h.2 a))
  case lambda l args body => exact .call (makes_expr body 0) fun b => makes_last
  case ifExp l test body orelse =>
    exact .call (makes_expr test 0) fun t => .call (makes_expr body 0) fun b =>
      .call (makes_expr orelse 0) fun o => makes_last
  case named l target value =>
    exact .call (makes_expr target 0) fun t => .call (makes_expr value 0) fun v => .bind (makes_targetName target)
      fun name => .bind (makes_plain k) fun id => .bind makes_defIf fun _ => .pure
  case boolOp l op es | list l es ctx | tuple l es ctx | set l es => exact .call (makes_all es) fun es => makes_last
  case unaryOp l op e | «attribute» l e attr ctx | await l e | yieldFrom l e =>
    exact .call (makes_expr e 0) fun e => makes_last
  case dict l keys values => exact .call (makes_keys keys) fun ks => .call (makes_all values) fun vs => makes_last
  case listComp l elt gens | setComp l elt gens | generator l elt gens =>
    exact .bind (makes_newScope "comp") fun scope => .call (makes_expr elt 0) fun e =>
      .call (makes_generators gens) fun gs => makes_last
  case dictComp l key value gens =>
    exact .bind (makes_newScope "comp") fun scope => .call (makes_expr key 0) fun k =>
      .call (makes_expr value 0) fun v => .call (makes_generators gens) fun gs => makes_last
  case binOp l left op right | subscript l left right ctx =>
    exact .call (makes_expr left 0) fun a => .call (makes_expr right 0) fun b => makes_last
  case compare l left ops comparators =>
    exact .call (makes_expr left 0) fun a => .call (makes_all comparators) fun cs => makes_last
  case call l func args keywords =>
    exact .call (makes_expr func 0) fun f => .call (makes_all args) fun as =>
      .call (makes_keywords keywords) fun ks => makes_last
  case yield l value => exact .call (makes_opt value) fun v => makes_last
  case formatted | joined | starred | slice => exact makes_last

theorem makes_all : ∀ (es : List Expr) {env : Env} {p : Nat},
    Lowers ∅ (Below p 0) (lowerAll env p es) fun ids d => ∀ r ∈ ids, r < d.nodes.size
  | [], env, p => .pure
  | e :: es, env, p => by
    rw [lowerAll]
    exact .call (makes_expr e 0) fun id => .call (makes_all es) fun ids => .pure

theorem makes_opt : ∀ (e : Option Expr) {env : Env} {p : Nat},
    Lowers ∅ (Below p 0) (lowerOpt env p e) fun id d => ∀ r, id = some r → r < d.nodes.size
  | none, env, p => .pure
  | some e, env, p => by
    rw [lowerOpt]
    exact .call (makes_expr e 0) fun id => .pure

theorem makes_keys : ∀ (ks : List (Option Expr)) {env : Env} {p : Nat},
    Lowers ∅ (Below p 0) (lowerKeys env p ks) fun ids d => ∀ r, some r ∈ ids → r < d.nodes.size
  | [], env, p => .pure
  | k :: ks, env, p => by
    rw [lowerKeys]
    exact .call (makes_opt k) fun id => .call (makes_keys ks) fun ids => .pure

theorem makes_keywords : ∀ (ks : List Keyword) {env : Env} {p : Nat},
    Lowers ∅ (Below p 0) (lowerKeywords env p ks) fun rows d => ∀ r ∈ (Attr.rows rows).refs, r < d.nodes.size
  | [], env, p => .pure (by simp)
  | .mk _ name value :: ks, env, p => by
    rw [lowerKeywords]
    refine .call (makes_expr value 0) fun v => .call (makes_keywords ks) fun rows => .pure fun d h => ?_
    simp [Cell.refs]
    grind

theorem makes_generators : ∀ (gs : List Comprehension) {env : Env} {p : Nat},
    Lowers ∅ (Below p 0) (lowerGenerators env p gs) fun rows d => ∀ r ∈ (Attr.rows rows).refs, r < d.nodes.size
  | [], env, p => .pure (by simp)
  | .mk target iter ifs isAsync :: gs, env, p => by
    rw [lowerGenerators]
    refine .call (makes_expr target 0) fun t => .call (makes_expr iter 0) fun i => .call (makes_all ifs) fun cs =>
      .bind (makes_targetName target) fun name => .bind makes_defIf fun _ => .call (makes_generators gs) fun rows =>
      .pure fun d h => ?_
    simp [Cell.refs]
    grind

end

/-! ## Statements -/

/-- Where a statement is made: below a node in the scope that is being filled, in a loop that is
there, after the first `k` nodes. -/
structure Fits (env : Env) (p k : Nat) (d : Draft) : Prop where
  inScope : d.Scoped p env.scope
  loop : ∀ l, env.loop = some l → l.head < d.nodes.size ∧ l.exit < d.nodes.size ∧ l.guard < d.nodes.size
  since : k ≤ d.nodes.size

namespace Fits

variable (h : Fits env p k d)
include h

@[grind →] theorem lt : Below p k d := ⟨h.inScope.lt, h.since⟩

@[grind →] theorem below (hi : Plain d p i) : Fits env i 0 d := by
  obtain ⟨kind, scope, hi, hkind⟩ := hi
  exact ⟨h.inScope.below hi hkind, h.loop, Nat.zero_le _⟩

@[grind →] theorem siblings (hi : d.Child p i) (hj : d.Child p j) : Meet d i j := by
  obtain ⟨o, -, -, hbody, -⟩ := h.inScope
  exact ⟨o, ⟨p, hi, hbody⟩, p, hj, hbody⟩

@[grind →] theorem parts (hi : Plain d p i) (hj : d.Child i j) : Meet d i j ∧ Meet d j i := by
  obtain ⟨o, -, -, hbody, -⟩ := h.inScope
  obtain ⟨kind, scope, hi, hkind⟩ := hi
  have hi' : d.Inside i o := ⟨p, ⟨kind, scope, hi⟩, hbody⟩
  have hj' : d.Inside j o := ⟨i, hj, .inner hi hkind hbody⟩
  exact ⟨⟨o, hi', hj'⟩, o, hj', hi'⟩

end Fits

/-- The node that a statement leaves, if it leaves one. -/
abbrev Result (p k : Nat) (r : Option Nat) (d : Draft) : Prop := ∀ id, r = some id → New p k id d

/-- The nodes of some statements, in the order of their making. -/
abbrev Results (p k : Nat) (ids : List Nat) (d : Draft) : Prop := ids.Pairwise (· < ·) ∧ ∀ r ∈ ids, New p k r d

/-- The statements that were made are listed in the node above them. -/
theorem makes_listed {key : String} {ids : List Nat}
    (hkey : key = "body_ids" ∧ isBody kind = true ∨ key = "stmt_ids" ∧ kind = "Block")
    (h : ∀ d, F d → (∃ parent scope, d.Stands i kind parent scope) ∧ Results i 0 ids d := by grind) :
    Passes F (setAttr i key (.list ids)) := by
  refine .step (fun d hd => ?_) fun d => Array.size_modify
  obtain ⟨⟨_, _, hi⟩, hlt, hids⟩ := h d hd
  exact .list hi hkey (fun r hr => (hids r hr).2) (hlt.imp fun hlt => Nat.ne_of_lt hlt)

theorem makes_reached (h : ∀ d, F d → Fits env p k d ∧ New p k id d := by grind) :
    Lowers ∅ F (do flowTo env id; return some id) (Result p k) := by
  refine .bind (.step (fun d hd => ?_) fun d => ?_) fun _ => .pure ?_
  · rw [flowTo_run]
    exact .flow (h d hd).2.2 (h d hd).1.inScope
  · rw [flowTo_run]
    rfl
  · rintro d hd _ ⟨rfl⟩
    exact (h d hd.1).2

theorem makes_definition {fill : Make (List Nat)} (kind scope : String) (hkind : isBody kind = true)
    (hfill : Lowers r (Fits { env with scope } id 0) fill (Results id 0)) :
    Lowers r (fun d => Fits env p k d ∧ k ≤ id ∧ d.Stands id kind (some p) scope) (do
      let ids ← fill
      setAttr id "body_ids" (.list ids)
      flowTo env id
      return some id) (Result p k) := by
  refine .rows (.join hfill (fun ids => .bind (makes_listed (.inl ⟨rfl, hkind⟩)) fun _ => makes_reached) ?_)
  rintro d ⟨h, -, hid⟩
  exact ⟨⟨id, kind, some p, .opens hid hkind, hid⟩, h.loop, Nat.zero_le _⟩

/-- A computation that makes the statements of a block. -/
def Fills (r : Set ImportRow) (env : Env) (fill : Nat → Make (List Nat)) : Prop :=
  ∀ p, Lowers r (Fits env p 0) (fill p) (Results p 0)

theorem makes_block (hfill : Fills r env fill) :
    Lowers r (Fits env p k) (addBlock env p label body fill) fun b d => d.Child p b := by
  unfold addBlock
  refine .bind (makes_node (k := k) (fun h => absurd h (by decide)) ?_ ?_) fun id => .rows (.join (hfill id)
    (fun ids => .bind (makes_listed (.inr ⟨rfl, rfl⟩)) fun _ => .pure) ?_)
  · grind
  · intro d h
    simp [Entry, h.lt.1]
  · exact fun d h => h.1.below ⟨_, _, h.2.2, rfl⟩

theorem makes_blockIf (hfill : Fills {x | IsRowOf env.file x body} env fill) :
    Lowers {x | IsRowOf env.file x body} (Fits env p k) (addBlockIf env p label body fill)
      fun b d => ∀ x ∈ b, d.Child p x := by
  unfold addBlockIf
  cases body with
  | nil => exact .rows .pure (by simp [isRowOf_nil])
  | cons => exact .rows (.join (makes_block hfill) (fun _ => .pure) fun _ => id)

/-- The blocks and edges of a loop, once its node is made. -/
theorem makes_loop (hexit : Fills {x | IsRowOf env.file x orelse} env fun p => lowerStmts env p true none orelse)
    (hbody : ∀ loop, Fills {x | IsRowOf env.file x body} { env with loop } fun p =>
      lowerStmts { env with loop } p true none body) :
    Lowers {x | IsRowOf env.file x body ∨ IsRowOf env.file x orelse} (fun d =>
        Fits env p k d ∧ k ≤ id ∧ Plain d p id ∧ t < d.nodes.size) (do
      let exit ← addBlock env id label orelse fun p => lowerStmts env p true none orelse
      let inner := { env with loop := some ⟨id, exit, t⟩ }
      let b ← addBlock inner id "body" body fun p => lowerStmts inner p true none body
      addEdge id b "true" t
      addEdge id exit "false" t
      addEdge b id "flow" t
      flowTo env id
      return some id) (Result p k) := by
  refine .rows (.join (makes_block (k := 0) hexit) fun exit => .join (makes_block (k := 0) (hbody _)) (fun b =>
    .bind makes_edge fun _ => .bind makes_edge fun _ => .bind makes_flow fun _ => makes_reached) ?_) (by
    ext
    simp [or_comm])
  rintro d ⟨⟨h, -, hid, ht⟩, hexit⟩
  refine ⟨(h.below hid).inScope, ?_, Nat.zero_le _⟩
  rintro _ ⟨rfl⟩
  exact ⟨hid.child.lt, hexit.lt, ht⟩

/-- A statement without blocks. -/
theorem makes_addStmt {loc : Loc} (hkind : isBody kind = false := by rfl) (hF : ∀ d, F d → Fits env p k d := by grind)
    (hentries : ∀ d, F d → ∀ a ∈ attrs, d.Entry a := by
      intro d hd
      simp [Entry] <;> grind) (hplain : kind ≠ "Import" ∧ kind ≠ "ImportFrom" := by decide) :
    Lowers ∅ F (do return some (← addStmt env kind loc p attrs)) (Result p k) := by
  have hmade : Lowers ∅ F (do
      let id ← addNode env kind loc (some p) env.scope attrs
      flowTo env id
      return some id) (Result p k) :=
    .bind (makes_plain k hkind (fun d h => (hF d h).lt) hentries hplain) fun id => makes_reached
  exact hmade

theorem makes_sourceOf (e : Expr) : Passes F (sourceOf e) := makes_attempt _ _

theorem makes_optSourceOf (e : Option Expr) : Passes F (optSourceOf e) := by
  cases e with
  | none => exact .done
  | some e => exact (makes_sourceOf e).bind fun _ => .done

theorem makes_decoratorAttrs (es : List Expr) :
    Lowers ∅ F (decoratorAttrs es) fun attrs _ => ∀ a ∈ attrs, a.2.refs = [] :=
  .bind (.mapM fun _ => makes_attempt _ _) fun _ => .bind (.mapM makes_sourceOf) fun _ => .pure (by simp)

theorem makes_withItems : ∀ (is : List WithItem), Lowers ∅ (Below p 0) (lowerWithItems env p is) fun r d =>
    ∀ x ∈ (Attr.rows r.1).refs, x < d.nodes.size
  | [] => .pure (by simp)
  | i :: is => by
    rw [lowerWithItems]
    refine .call (makes_expr i.context 0) fun c => .call (makes_opt i.vars) fun v => ?_
    dsimp only
    -- the remaining managers, whether or not there is a name and it is used
    have hrest : ∀ name, Lowers ∅ (fun d => (Below p 0 d ∧ New p 0 c d) ∧ ∀ r, v = some r → r < d.nodes.size) (do
        let r ← lowerWithItems env p is
        return ([("context_expr_id", Cell.node (some c)), ("optional_vars_id", .node v)] :: r.1,
          if name == "" then r.2 else name :: r.2)) fun r d => ∀ x ∈ (Attr.rows r.1).refs, x < d.nodes.size := by
      refine fun name => .call (makes_withItems is) fun r => .pure fun d h => ?_
      simp [Cell.refs]
      grind
    cases i.vars with
    | none =>
      rw [pure_bind]
      exact .ite (.bind makes_use fun _ => (hrest _).weaken) (hrest _)
    | some e =>
      exact .bind (makes_targetName e) fun name => .ite (.bind makes_use fun _ => (hrest _).weaken) (hrest _).weaken

theorem makes_link {linked : Bool} {prev : Option Nat} (h : ∀ d, F d → ∀ q, prev = some q → Meet d q id := by grind) :
    Passes F (linkNext linked prev id) := by
  unfold linkNext
  split
  next q => exact makes_flow
  next => exact .pure

theorem fills (h : ∀ {p : Nat} {linked : Bool} {prev : Option Nat} (k : Nat), Lowers r (fun d => Fits env p k d ∧
    ∀ q, prev = some q → d.Child p q) (lowerStmts env p linked prev body) (Results p k)) :
    Fills r env fun p => lowerStmts env p true none body := fun _ => (h 0).weaken

theorem makes_import {names : List Alias} (hnames : attrs.lookup "names" = some (.texts (names.map (·.name))))
    (hp : ∀ d, F d → Below p k d) (hentries : ∀ d, F d → ∀ a ∈ attrs, d.Entry a) :
    Lowers {x | x = importRow env.file (names.map (·.name))} F (addNode env "Import" loc (some p) scope attrs)
      fun id d => k ≤ id ∧ Plain d p id := by
  refine ((makes_row (by simp [isBody]) hp hentries).rows ?_).imp fun _ _ _ h => ⟨h.1, "Import", scope, h.2, rfl⟩
  ext x
  cases loc <;> simp [rowOf, Node.importRow, Node.attr?, hnames, Attr.texts, importRow, spanAt, eq_comm]

mutual

/-- A statement leaves at most one new node below its parent, after the nodes of its parts. -/
theorem makes_stmt (s : Stmt) {env : Env} {p : Nat} (k : Nat) :
    Lowers {x | IsRowIn env.file x s} (Fits env p k) (lowerStmt env p s) (Result p k) := by
  cases s
  case tryBlock l star body handlers orelse final =>
    cases star <;> rw [lowerStmt]
    case true => exact .rows .pure
    -- all the blocks stand below the statement, so control between them stays in its body
    exact .rows <| .bind (makes_plain k) fun id =>
      .join (makes_block (k := 0) (fills (makes_stmts body))) fun b => .join (makes_handlers handlers) fun hs =>
      .join (makes_blockIf (k := 0) (fills (makes_stmts orelse))) fun o =>
      .join (makes_blockIf (k := 0) (fills (makes_stmts final))) fun f => .bind makes_flow fun _ =>
      .bind (.forM fun x hx => makes_edge) fun _ =>
      .bind (.option fun y hy => .forM fun x hx => makes_flow) fun _ => .bind (.option fun y hy => makes_flow) fun _ =>
      makes_reached
  all_goals rw [lowerStmt]
  case funcDef l isAsync name args body decorators returns _ =>
    refine .rows <| .bind (makes_decoratorAttrs decorators) fun attrs => .bind (makes_optSourceOf returns) fun text =>
      .bind (makes_node (k := k) (fun _ => ⟨by decide, name, rfl, rfl⟩) ?_ ?_) fun id =>
      .bind (.forM fun x _ => makes_def) fun _ =>
      (makes_definition "Function" ("scope:" ++ name) rfl (makes_stmts body 0).weaken).weaken
    · grind
    · rintro d ⟨⟨h, hattrs⟩, -⟩
      have hplain : ∀ a ∈ attrs, d.Entry a := fun a ha => entry_of_refs (hattrs a ha)
      simpa [Entry, or_imp, forall_and] using hplain
  case classDef l name bases keywords body decorators =>
    refine .rows <| .bind (makes_decoratorAttrs decorators) fun attrs => .bind (.mapM makes_sourceOf) fun _ =>
      .bind (.mapM fun _ => makes_attempt _ _) fun _ =>
      .bind (makes_node (k := k) (fun _ => ⟨by decide, name, rfl, rfl⟩) ?_ ?_) fun id =>
      .bind makes_def fun _ =>
      (makes_definition "Class" ("scope:" ++ name) rfl (makes_stmts body 0).weaken).weaken
    · grind
    · rintro d ⟨⟨⟨h, hattrs⟩, -⟩, -⟩
      have hplain : ∀ a ∈ attrs, d.Entry a := fun a ha => entry_of_refs (hattrs a ha)
      simpa [Entry, or_imp, forall_and] using hplain
  case assign l targets value _ =>
    exact .rows <| .call (makes_expr value 0) fun v => .bind (.mapM makes_targetName) fun names =>
      .bind (makes_plain k) fun id => .bind (.forM fun x _ => makes_defIf) fun _ => makes_reached
  case annAssign l target hint value _ =>
    exact .rows <| .call (makes_opt value) fun v => .bind (makes_targetName target) fun name =>
      .bind (makes_sourceOf hint) fun text => .bind (makes_plain k) fun id => .bind makes_defIf fun _ =>
      makes_reached
  case augAssign l target op value =>
    refine .rows (r := ∅) <| .call (makes_expr value 0) fun v => .bind (makes_targetName target) fun name =>
      .bind (makes_plain k) fun id => ?_
    dsimp only
    exact .ite (.bind makes_use fun _ => .bind makes_def fun _ => makes_reached) makes_reached
  case globalNames _ names | nonlocalNames _ names =>
    refine .rows <| .bind (.forM fun n _ => makes_touch fun _ _ => ?_) fun _ => .pure
    exact ⟨fun _ => rfl, fun _ => rfl, fun s r hr => .inl hr⟩
  case delete l targets => exact .rows <| .call (makes_all targets) fun ts => makes_addStmt
  case assert l test msg =>
    exact .rows <| .call (makes_expr test 0) fun t => .call (makes_opt msg) fun m => makes_addStmt
  case ret l value => exact .rows <| .call (makes_opt value) fun v => makes_addStmt
  case expr _ value => exact .rows <| .call (makes_expr value k) fun id => makes_reached
  case cond l test body orelse =>
    exact .rows <| .call (makes_expr test 0) fun t => .bind (makes_plain k) fun id =>
      .join (makes_block (k := 0) (fills (makes_stmts body))) fun b =>
      .join (makes_blockIf (k := 0) (fills (makes_stmts orelse))) fun o => .bind makes_edge fun _ =>
      .bind (.option fun x hx => makes_edge) fun _ => makes_reached
  case whileLoop l test body orelse =>
    exact .rows <| .call (makes_expr test 0) fun t => .bind (makes_plain k) fun id =>
      (makes_loop (fills (makes_stmts orelse)) fun _ => fills (makes_stmts body)).weaken
  case forLoop l isAsync target iter body orelse _ =>
    exact .rows <| .call (makes_expr iter 0) fun i => .call (makes_expr target 0) fun t =>
      .bind (makes_plain k) fun id => .bind (makes_targetName target) fun name => .bind makes_defIf fun _ =>
      (makes_loop (fills (makes_stmts orelse)) fun _ => fills (makes_stmts body)).weaken
  case pass _ => exact .rows .pure
  case breakLoop l | continueLoop l =>
    refine .rows <| .bind (makes_plain k) fun id =>
      .bind (.option fun x hx => makes_edge (by decide) fun d h => ?_) fun _ => makes_reached
    have hloop := h.1.loop x hx
    grind
  case withBlock l isAsync items body _ =>
    exact .rows <| .call (makes_withItems items) fun r => .bind (makes_plain k) fun id =>
      .bind (.forM fun x _ => makes_def) fun _ => .join (makes_block (k := 0) (fills (makes_stmts body))) fun b =>
      .bind makes_flow fun _ => makes_reached
  case raise l exc cause => exact .rows <| .call (makes_opt exc) fun e => .call (makes_opt cause) fun c => makes_addStmt
  case importNames l names | importFrom l module names level =>
    refine .rows <| .join (makes_import (k := k) rfl ?_ ?_) (fun id => .bind (.forM fun x _ => makes_def) fun _ =>
      makes_reached) fun _ => id
    · grind
    · simp [Entry, importAttrs]
  case matchOn l subject cases =>
    refine .rows <| .call (makes_expr subject 0) fun s => .bind (makes_plain k) fun id =>
      .join (makes_cases cases (k := k)) fun rows => .bind (.step (fun d h => ?_) fun _ => Array.size_modify) fun _ =>
      makes_reached
    exact .attr h.2 (by simp)

/-- The statements of a body leave nodes in the order of their making. -/
theorem makes_stmts : ∀ (ss : List Stmt) {env : Env} {p : Nat} {linked : Bool} {prev : Option Nat} (k : Nat),
    Lowers {x | IsRowOf env.file x ss} (fun d => Fits env p k d ∧ ∀ q, prev = some q → d.Child p q)
      (lowerStmts env p linked prev ss) (Results p k)
  | [], env, p, linked, prev, k => .rows (.pure (by simp [Results])) (by simp [isRowOf_nil])
  | s :: ss, env, p, linked, prev, k => by
    have hrows : {x | IsRowOf env.file x (s :: ss)} = {x | IsRowIn env.file x s} ∪ {x | IsRowOf env.file x ss} := by
      ext
      simp [isRowOf_cons]
    rw [lowerStmts, hrows]
    refine .join (makes_stmt s k) fun r => ?_
    cases r with
    | none => exact (makes_stmts ss k).weaken
    | some id =>
      refine .bind makes_link fun _ => .rows (.join (makes_stmts ss (id + 1)) (fun ids => .pure ?_) ?_)
      · -- later statements are made after this one
        simp [Results]
        grind
      · rintro d ⟨⟨⟨h, hprev⟩, hid⟩, -⟩
        exact ⟨⟨h.inScope, h.loop, (hid id rfl).2.lt⟩, by grind⟩

theorem makes_handlers : ∀ (hs : List Handler) {env : Env} {p : Nat},
    Lowers {x | ∃ names, (∃ body ∈ hs.map fun (.mk _ _ _ body) => body, Imports names body) ∧
      x = importRow env.file names} (Fits env p 0) (lowerHandlers env p hs) fun bs d => ∀ x ∈ bs, d.Child p x
  | [], env, p => .rows .pure (by simp)
  | .mk _ _ _ body :: hs, env, p => by
    rw [lowerHandlers]
    exact .rows (.join (makes_block (k := 0) (fills (makes_stmts body))) fun b =>
      .join (makes_handlers hs) fun bs => .pure)

theorem makes_cases : ∀ (cs : List MatchCase) {env : Env} {p id k : Nat},
    Lowers {x | ∃ names, (∃ body ∈ cs.map fun (.mk _ _ body) => body, Imports names body) ∧
      x = importRow env.file names} (fun d => Fits env p k d ∧ Plain d p id) (lowerCases env p id cs)
      fun rows d => ∀ r ∈ (Attr.rows rows).refs, r < d.nodes.size
  | [], env, p, id, k => .rows (.pure (by simp)) (by simp)
  | .mk pattern guard body :: cs, env, p, id, k => by
    rw [lowerCases]
    refine .rows (.bind (.forM fun x _ => makes_def) fun _ => .call (makes_opt guard) fun g =>
      .join (makes_block (k := 0) (fills (makes_stmts body))) fun b => .bind makes_flow fun _ =>
      .join (makes_cases cs (k := k)) fun rows => .pure fun d h => ?_)
    simp [Cell.refs]
    grind

end

/-- The graph of a module is made by steps, with the module's node first. -/
theorem makes_module (env : Env) (henv : env.scope = "scope:module") (hloop : env.loop = none) (m : Module) :
    Steps {} ((lowerModule env m).run {}).2 ∧ 0 < ((lowerModule env m).run {}).2.nodes.size ∧
      ∀ x, x ∈ ((lowerModule env m).run {}).2.rows ↔ IsRowOf env.file x m.body := by
  have hnode : Step {} ((addNode env "Module" none none env.scope []).run {}).2 :=
    .node rfl (by simp) (fun _ => rfl) (by simp) (by simp) fun _ => ⟨"module", henv, rfl⟩
  have hmodule : isBody "Module" = true := rfl
  have hrest : Lowers {x | IsRowOf env.file x m.body} (fun d => d.Stands 0 "Module" none env.scope) (do
      let ids ← lowerStmts env 0 false none m.body
      setAttr 0 "body_ids" (.list ids)) fun _ d => 0 < d.nodes.size := by
    refine .rows (.join (makes_stmts m.body 0) (fun ids => (makes_listed (.inl ⟨rfl, hmodule⟩)).imp ?_) fun d h => ?_)
    · exact fun _ d h _ => h.1.lt
    · exact ⟨⟨⟨0, "Module", none, .opens h rfl, h⟩, by simp [hloop], Nat.zero_le _⟩, by simp⟩
  obtain ⟨hsteps, hrows, hsome⟩ := hrest ((addNode env "Module" none none env.scope []).run {}).2 fun e he =>
    he.stands ⟨_, Array.getElem?_push_size, rfl, rfl, rfl⟩
  have hempty : ((addNode env "Module" none none env.scope []).run {}).2.rows = [] := rfl
  exact ⟨.head hnode hsteps, hsome _ .refl, fun x => (hrows x).trans (by simp [hempty])⟩

end SecScan.Ir
