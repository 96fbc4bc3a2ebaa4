import SecScan.Privacy.Masking
import SecScan.Proofs.Privacy.Table
import SecScan.Proofs.Syntax.Walk

/-!
What a masking leaves of the names of a program. The tree is followed as the masking goes through it
(`parts`): type hints are not part of that, and of a hinted assignment neither a target that is no
name nor a value that is a plain name. Everywhere else a name is one that is kept on purpose or a masked
name, which the table explains (`Hidden`).

The table only grows, so what is hidden once stays so. Each step of the masking is described by what it
hides, given what has been hidden before (`Masks`), and the steps are chained along the constructors of
the tree. So the table of a whole masking comes about by steps of the table, and it can be inverted
(`masking_invertible`).
-/

namespace SecScan.Privacy

open Syntax Syntax.Node List

/-! ## Names in a tree -/

/-- A name as it stands in a program. -/
structure Ident where
  name : String
  isFunction : Bool := false

/-- The name that stands at a node: a variable, a function, a class or a parameter. -/
def ident? : Node → Option Ident
  | .expr (.name _ n _) => some { name := n }
  | .arg (.mk _ n _ _) => some { name := n }
  | .stmt (.classDef _ n _ _ _ _) => some { name := n }
  | .stmt (.funcDef _ _ n _ _ _ _ _) => some { name := n, isFunction := true }
  | _ => none

def isName : Expr → Bool
  | .name .. => true
  | _ => false

/-- The parts of a node that the masking goes through. -/
def parts : Node → List Node
  | .arg _ => []
  | .stmt (.annAssign _ target _ value _) =>
    (if isName target then [.expr target] else []) ++ opt (value.filter (!isName ·))
  | n => n.children

/-- Names that tell nothing: kept on purpose, or entered in the table. -/
def Hidden (p : Policy) (t : Table) (i : Ident) : Prop :=
  i.name ∈ p.preserved ∨ i.name ∈ constantNames ∨ (i.isFunction ∧ isDunder i.name) ∨ i.name ∈ t.entries.map (·.1)

instance (p : Policy) (t : Table) (i : Ident) : Decidable (Hidden p t i) := inferInstanceAs (Decidable (_ ∨ _ ∨ _ ∨ _))

theorem opt_filter_subset (v : Option Expr) : opt (v.filter (!isName ·)) ⊆ opt v := by
  rcases v with - | e
  · exact Subset.refl _
  · cases he : isName e <;> simp [opt, Option.filter, he]

theorem parts_subset (n : Node) : parts n ⊆ n.children := by
  unfold parts
  split
  · exact nil_subset _
  · next target _ value _ =>
    rw [children, Stmt.children]
    refine append_subset.mpr ⟨?_, ?_⟩
    · split <;> simp
    · exact Subset.trans (opt_filter_subset value) (subset_append_right _ _)
  · exact Subset.refl _

/-- A tree in which all names are hidden. -/
def Clean (p : Policy) (t : Table) (n : Node) : Prop := ∀ k, Below parts n k → ∀ i, ident? k = some i → Hidden p t i

section

variable {p : Policy} {t t' : Table} {n : Node} {i : Ident}

theorem Hidden.mono (h : Hidden p t i) (hsteps : Steps p t t') : Hidden p t' i := by
  rcases h with h | h | h | h
  · exact .inl h
  · exact .inr (.inl h)
  · exact .inr (.inr (.inl h))
  · exact .inr (.inr (.inr (map_subset _ hsteps.grows.subset h)))

theorem Clean.mono (h : Clean p t n) (hsteps : Steps p t t') : Clean p t' n :=
  fun k hk i hi => (h k hk i hi).mono hsteps

theorem clean_iff : Clean p t n ↔ (∀ i, ident? n = some i → Hidden p t i) ∧ ∀ m ∈ parts n, Clean p t m := by
  constructor
  · exact fun h => ⟨h n .self, fun m hm k hk => h k (hk.head hm)⟩
  · rintro ⟨hself, hparts⟩ k hk
    rcases below_iff.mp hk with rfl | ⟨m, hm, hk⟩
    · exact hself
    · exact hparts m hm k hk

theorem clean_leaf (hname : ∀ i, ident? n = some i → Hidden p t i) (hparts : parts n = []) : Clean p t n :=
  clean_iff.mpr ⟨hname, by simp [hparts]⟩

end

/-! ## Steps of the masking -/

variable {α β : Type} {p : Policy}

/-- Once some names and trees are hidden, a step hides the names and trees of its result, and the table
changes by steps of its own only. -/
def Masks (p : Policy) (names : List Ident) (trees : List Node) (x : Mask α) (idents : α → List Ident)
    (nodes : α → List Node) : Prop :=
  ∀ t : Table, customaryNames ⊆ p.preserved → (∀ i ∈ names, Hidden p t i) → (∀ n ∈ trees, Clean p t n) →
    Steps p t (x.run t).2 ∧ (∀ i ∈ idents (x.run t).1, Hidden p (x.run t).2 i) ∧
      ∀ n ∈ nodes (x.run t).1, Clean p (x.run t).2 n

/-- A step hides the trees of its result, whatever was hidden before. -/
abbrev Hides (p : Policy) (x : Mask α) (nodes : α → List Node) : Prop := Masks p [] [] x (fun _ => []) nodes

/-- A step gives a hidden name. -/
abbrev HidesName (p : Policy) (isFunction : Bool) (x : Mask String) : Prop :=
  Masks p [] [] x (fun n => [⟨n, isFunction⟩]) fun _ => []

namespace Masks

variable {names : List Ident} {trees : List Node} {x : Mask α} {f : α → Mask β} {idents : α → List Ident}
  {nodes : α → List Node} {idents' : β → List Ident} {nodes' : β → List Node}

theorem bind (hx : Masks p [] [] x idents nodes)
    (hf : ∀ a, Masks p (idents a ++ names) (nodes a ++ trees) (f a) idents' nodes') :
    Masks p names trees (x >>= f) idents' nodes' := by
  intro t hp hnames htrees
  obtain ⟨hsteps, hhidden, hclean⟩ := hx t hp (by simp) (by simp)
  obtain ⟨hsteps', hresult⟩ := hf (x.run t).1 (x.run t).2 hp (by
    intro i hi
    rcases mem_append.mp hi with hi | hi
    · exact hhidden i hi
    · exact (hnames i hi).mono hsteps) (by
    intro n hn
    rcases mem_append.mp hn with hn | hn
    · exact hclean n hn
    · exact (htrees n hn).mono hsteps)
  exact ⟨hsteps.trans hsteps', hresult⟩

/-- A result whose trees are hidden already. -/
theorem pure {a : α} (h : nodes a ⊆ trees := by simp [exprs, opt, stmts]) :
    Masks p names trees (pure a) (fun _ => []) nodes :=
  fun _ _ _ htrees => ⟨.refl, by simp, fun n hn => htrees n (h hn)⟩

/-- A tree made of hidden parts under a hidden name, in front of others. -/
theorem cons {a : α} {n : Node} {rest : List Node} (hnodes : nodes a = n :: rest := by rfl)
    (hname : ∀ i, ident? n = some i → i ∈ names := by simp [ident?])
    (hparts : parts n ⊆ trees := by simp [parts, children, Expr.children]) (hrest : rest ⊆ trees := by simp) :
    Masks p names trees (Pure.pure a) (fun _ => []) nodes := by
  intro t _ hnames htrees
  refine ⟨.refl, by simp, fun m hm => ?_⟩
  change m ∈ nodes a at hm
  rw [hnodes] at hm
  rcases mem_cons.mp hm with rfl | hm
  · exact clean_iff.mpr ⟨fun i hi => hnames i (hname i hi), fun m hm => htrees m (hparts hm)⟩
  · exact htrees m (hrest hm)

/-- A result whose trees are hidden in any case. -/
theorem of_clean {a : α} (h : customaryNames ⊆ p.preserved → ∀ t, ∀ n ∈ nodes a, Clean p t n) :
    Masks p names trees (Pure.pure a) (fun _ => []) nodes :=
  fun t hp _ _ => ⟨.refl, by simp, h hp t⟩

theorem expr {e : Expr} (he : isName e = false := by rfl) (h : e.children ⊆ trees := by simp [Expr.children]) :
    Masks p names trees (Pure.pure e) (fun _ => []) fun e => [.expr e] := by
  refine .cons rfl ?_ h
  cases e <;> simp_all [ident?, isName]

theorem pattern {q : Pattern} (h : q.children ⊆ trees := by simp [Pattern.children]) :
    Masks p names trees (Pure.pure q) (fun _ => []) fun q => [.pattern q] :=
  .cons rfl (by simp [ident?]) h

theorem stmt {s : Stmt} (hs : ident? (.stmt s) = none := by rfl)
    (h : parts (.stmt s) ⊆ trees := by simp [parts, children, Stmt.children]) :
    Masks p names trees (Pure.pure s) (fun _ => []) fun s => [.stmt s] :=
  .cons rfl (by simp [hs]) h

end Masks

/-! ## Names -/

theorem hidesName_maskName (isFunction : Bool) (name label : String) :
    HidesName p isFunction (maskName p name label) := by
  intro t _ _ _
  refine ⟨steps_maskName p t name label, ?_, by simp⟩
  rw [forall_mem_singleton]
  rcases maskName_cases p t name label with ⟨hkept, hrun⟩ | ⟨m, -, hm, hrun⟩ | ⟨_, m, -, -, hmem, hrun⟩
  · rw [hrun]
    exact .inl hkept
  · obtain ⟨e, he, rfl⟩ := Option.map_eq_some_iff.mp hm
    rw [hrun]
    exact .inr (.inr (.inr (mem_map_of_mem (mem_of_find?_eq_some he))))
  · rw [hrun]
    exact .inr (.inr (.inr (mem_map_of_mem (f := (·.1)) hmem)))

theorem hides_setType (name label : String) : Hides p (setType name label) fun _ => [] :=
  fun _ _ _ _ => ⟨.single (.learn _), by simp, by simp⟩

theorem hides_suggestType (name label : String) : Hides p (suggestType name label) fun _ => [] := by
  intro t hp hnames htrees
  simp only [suggestType, StateT.run_bind, StateT.run_get, pure_bind]
  split
  · exact hides_setType name label t hp hnames htrees
  · exact hides_setType name label t hp hnames htrees
  · exact ⟨.refl, by simp, by simp⟩

theorem hides_suggestTypes (value : Expr) (targets : List Expr) : Hides p (suggestTypes value targets) fun _ => [] := by
  induction targets with
  | nil => exact .pure
  | cons e targets ih =>
    have hfirst : Hides p (match e with
        | .name _ n _ => suggestType n (labelOfValue value)
        | _ => pure ()) fun _ => [] := by
      split
      · exact hides_suggestType _ _
      · exact .pure
    exact hfirst.bind fun _ => ih

/-! ## Expressions -/

theorem hides_name (l : Loc) (n : String) (ctx : Context) :
    Hides p (maskExpr p (.name l n ctx)) fun e => [.expr e] := by
  rw [maskExpr]
  by_cases hconstant : constantNames.contains n
  · rw [if_pos hconstant]
    refine Masks.of_clean fun _ t m hm => ?_
    obtain rfl := mem_singleton.mp hm
    refine clean_leaf (fun i hi => ?_) rfl
    obtain rfl := Option.some.inj hi
    exact .inr (.inl (by simpa using hconstant))
  · rw [if_neg hconstant]
    exact (hidesName_maskName false n "VAR").bind fun n => .cons

mutual

theorem hides_arg : ∀ a, Hides p (maskArg p a) fun a => [.arg a]
  | .mk l n hint note => by
    rw [maskArg]
    by_cases hself : (n == "self" || n == "cls") = true
    · rw [if_pos hself]
      refine Masks.of_clean fun hp t m hm => ?_
      obtain rfl := mem_singleton.mp hm
      refine clean_leaf (fun i hi => ?_) rfl
      obtain rfl := Option.some.inj hi
      have hn : n = "self" ∨ n = "cls" := by simpa using hself
      exact .inl (hp (by rcases hn with rfl | rfl <;> simp [customaryNames]))
    · rw [if_neg hself]
      exact (hides_setType n _).bind fun _ => (hidesName_maskName false n _).bind fun n => .cons

theorem hides_args : ∀ as, Hides p (maskArgs p as) fun as => as.map .arg
  | [] => .pure
  | a :: as => by
    rw [maskArgs]
    exact (hides_arg a).bind fun a => (hides_args as).bind fun as => .pure

theorem hides_optArg : ∀ a, Hides p (maskOptArg p a) fun a => (a.map .arg).toList
  | none => .pure
  | some a => by
    rw [maskOptArg]
    exact (hides_arg a).bind fun a => .pure

theorem hides_expr (e : Expr) : Hides p (maskExpr p e) fun e => [.expr e] := by
  cases e <;> rw [maskExpr]
  case named l t v | binOp l t op v | subscript l t v ctx =>
    exact (hides_expr t).bind fun t => (hides_expr v).bind fun v => .expr
  case unaryOp l op e | await l e | yieldFrom l e | «attribute» l e a ctx | starred l e ctx =>
    exact (hides_expr e).bind fun e => .expr
  case lambda l args b => exact (hides_arguments args).bind fun args => (hides_expr b).bind fun b => .expr
  case ifExp l t b o =>
    exact (hides_expr t).bind fun t => (hides_expr b).bind fun b => (hides_expr o).bind fun o => .expr
  case dict l ks vs => exact (hides_optAll ks).bind fun ks => (hides_all vs).bind fun vs => .expr
  case boolOp l op es | joined l es | set l es | list l es ctx | tuple l es ctx =>
    exact (hides_all es).bind fun es => .expr
  case listComp l e gs | setComp l e gs | generator l e gs =>
    exact (hides_expr e).bind fun e => (hides_generators gs).bind fun gs => .expr
  case dictComp l k v gs =>
    exact (hides_expr k).bind fun k => (hides_expr v).bind fun v => (hides_generators gs).bind fun gs => .expr
  case yield l e => exact (hides_opt e).bind fun e => .expr
  case compare l a ops bs => exact (hides_expr a).bind fun a => (hides_all bs).bind fun bs => .expr
  case call l f args ks =>
    exact (hides_expr f).bind fun f => (hides_all args).bind fun args => (hides_keywords ks).bind fun ks => .expr
  case formatted l v c s => exact (hides_expr v).bind fun v => (hides_opt s).bind fun s => .expr
  case constant l v k => exact .expr
  case name l n ctx => exact hides_name l n ctx
  case slice l a b c => exact (hides_opt a).bind fun a => (hides_opt b).bind fun b => (hides_opt c).bind fun c => .expr

theorem hides_all : ∀ es, Hides p (maskAll p es) exprs
  | [] => .pure
  | e :: es => by
    rw [maskAll]
    exact (hides_expr e).bind fun e => (hides_all es).bind fun es => .pure

theorem hides_opt : ∀ e, Hides p (maskOpt p e) opt
  | none => .pure
  | some e => by
    rw [maskOpt]
    exact (hides_expr e).bind fun e => .pure

theorem hides_optAll : ∀ es, Hides p (maskOptAll p es) fun es => exprs (es.filterMap id)
  | [] => .pure
  | e :: es => by
    rw [maskOptAll]
    exact (hides_opt e).bind fun e => (hides_optAll es).bind fun es => .pure (by cases e <;> simp [exprs, opt])

theorem hides_keywords : ∀ ks, Hides p (maskKeywords p ks) fun ks => ks.map .keyword
  | [] => .pure
  | .mk l n v :: ks => by
    rw [maskKeywords]
    exact (hides_expr v).bind fun v => (hides_keywords ks).bind fun ks => .cons

theorem hides_generators : ∀ gs, Hides p (maskGenerators p gs) fun gs => gs.map .comprehension
  | [] => .pure
  | .mk t i ifs isAsync :: gs => by
    rw [maskGenerators]
    exact (hides_expr t).bind fun t => (hides_expr i).bind fun i =>
      (hides_all ifs).bind fun ifs => (hides_generators gs).bind fun gs =>
      .cons

theorem hides_arguments : ∀ a, Hides p (maskArguments p a) fun a => [.arguments a]
  | .mk posOnly args vararg kwOnly kwDefaults kwarg defaults => by
    rw [maskArguments]
    exact (hides_args posOnly).bind fun posOnly => (hides_args args).bind fun args =>
      (hides_optArg vararg).bind fun vararg => (hides_args kwOnly).bind fun kwOnly =>
      (hides_optAll kwDefaults).bind fun kwDefaults => (hides_optArg kwarg).bind fun kwarg =>
      (hides_all defaults).bind fun defaults =>
      .cons rfl (by simp [ident?]) (by
        intro m
        simp only [parts, children, mem_append]
        tauto)

end

/-! ## Statements -/

mutual

theorem hides_pattern : ∀ q, Hides p (maskPattern p q) fun q => [.pattern q]
  | .value l e => by
    rw [maskPattern]
    exact (hides_expr e).bind fun e => .pattern
  | .singleton l v | .star l n | .capture l none n => by
    rw [maskPattern]
    exact .pattern
  | .sequence l ps | .anyOf l ps => by
    rw [maskPattern]
    exact (hides_patterns ps).bind fun ps => .pattern
  | .mapping l keys ps rest => by
    rw [maskPattern]
    exact (hides_all keys).bind fun keys => (hides_patterns ps).bind fun ps => .pattern
  | .cls l c ps attrs attrPs => by
    rw [maskPattern]
    exact (hides_expr c).bind fun c => (hides_patterns ps).bind fun ps =>
      (hides_patterns attrPs).bind fun attrPs => .pattern
  | .capture l (some q) n => by
    rw [maskPattern]
    exact (hides_pattern q).bind fun q => .pattern

theorem hides_patterns : ∀ qs, Hides p (maskPatterns p qs) fun qs => qs.map .pattern
  | [] => .pure
  | q :: qs => by
    rw [maskPatterns]
    exact (hides_pattern q).bind fun q => (hides_patterns qs).bind fun qs => .pure

end

theorem hides_withItem (w : WithItem) : Hides p (maskWithItem p w) fun w => [.withItem w] := by
  rw [maskWithItem]
  exact (hides_expr w.context).bind fun context => (hides_opt w.vars).bind fun vars => .cons

theorem hides_withItems : ∀ ws : List WithItem, Hides p (ws.mapM (maskWithItem p)) fun ws => ws.map .withItem
  | [] => .pure
  | w :: ws => by
    rw [mapM_cons]
    exact (hides_withItem w).bind fun w => (hides_withItems ws).bind fun ws => .pure

theorem hides_hinted (hint e : Expr) : Hides p (maskHinted p hint e) fun e => if isName e then [.expr e] else [] := by
  by_cases hname : isName e
  · cases e with
    | name l n ctx =>
      rw [maskHinted]
      exact (hides_setType n _).bind fun _ => (hidesName_maskName false n _).bind fun n => .cons
    | _ => simp [isName] at hname
  · have hsame : maskHinted p hint e = pure e := by cases e <;> first | rfl | simp [isName] at hname
    rw [hsame]
    exact .pure (by simp [hname])

theorem hides_hintedValue (v : Option Expr) : Hides p (maskHintedValue p v) fun v => opt (v.filter (!isName ·)) := by
  by_cases hname : v.any isName
  · obtain ⟨e, rfl, he⟩ := (Option.any_eq_true _ _).mp hname
    cases e with
    | name l n ctx =>
      rw [maskHintedValue]
      exact (hides_name l n ctx).bind fun _ => .pure (by simp [opt, isName])
    | _ => simp [isName] at he
  · have hsame : maskHintedValue p v = maskOpt p v := by
      rcases v with - | e
      · rfl
      · cases e <;> first | rfl | simp [isName] at hname
    rw [hsame]
    intro t hp hnames htrees
    obtain ⟨hsteps, hidents, hclean⟩ := hides_opt v t hp hnames htrees
    exact ⟨hsteps, hidents, fun n hn => hclean n (opt_filter_subset _ hn)⟩

/-- Imported names are not masked. -/
theorem hides_aliases {s : Stmt} {as : List Alias} (hs : ident? (.stmt s) = none)
    (hparts : parts (.stmt s) = as.map .alias) :
    Hides p (pure s) fun s => [.stmt s] := by
  refine Masks.of_clean fun _ t n hn => ?_
  obtain rfl := mem_singleton.mp hn
  refine clean_iff.mpr ⟨fun i hi => by simp [hs] at hi, fun m hm => ?_⟩
  rw [hparts] at hm
  obtain ⟨a, -, rfl⟩ := mem_map.mp hm
  exact clean_leaf (by simp [ident?]) rfl

theorem hidesName_maskFunction (name : String) : HidesName p true (maskFunction p name) := by
  rw [maskFunction]
  split
  · next hdunder => exact fun t _ _ _ => ⟨.refl, forall_mem_singleton.mpr (.inr (.inr (.inl ⟨rfl, hdunder⟩))), by simp⟩
  · exact hidesName_maskName true name "FUNC"

mutual

theorem hides_stmt (s : Stmt) : Hides p (maskStmt p s) fun s => [.stmt s] := by
  cases s <;> rw [maskStmt]
  case funcDef l isAsync name args body ds returns note =>
    exact (hidesName_maskFunction name).bind fun name => (hides_arguments args).bind fun args =>
      (hides_body body).bind fun body => (hides_all ds).bind fun ds =>
      (hides_opt returns).bind fun returns =>
      .cons rfl (by simp [ident?]) (by
        intro m
        simp only [parts, children, Stmt.children, mem_append, mem_cons]
        tauto)
  case classDef l name bases ks body ds =>
    exact (hidesName_maskName false name "CLASS").bind fun name =>
      (hides_all bases).bind fun bases => (hides_keywords ks).bind fun ks =>
      (hides_body body).bind fun body => (hides_all ds).bind fun ds =>
      .cons rfl (by simp [ident?]) (by
        intro m
        simp only [parts, children, Stmt.children, mem_append]
        tauto)
  case ret l v => exact (hides_opt v).bind fun v => .stmt
  case delete l ts => exact (hides_all ts).bind fun ts => .stmt
  case assign l ts v note =>
    exact (hides_suggestTypes v ts).bind fun _ => (hides_all ts).bind fun ts =>
      (hides_expr v).bind fun v =>
      .stmt
  case augAssign l t op v => exact (hides_expr t).bind fun t => (hides_expr v).bind fun v => .stmt
  case annAssign l t hint v simple =>
    exact (hides_hinted hint t).bind fun t => (hides_hintedValue v).bind fun v => .stmt
  case forLoop l isAsync t i body orelse note =>
    exact (hides_expr t).bind fun t => (hides_expr i).bind fun i =>
      (hides_body body).bind fun body => (hides_body orelse).bind fun orelse =>
      .stmt
  case whileLoop l t body orelse | cond l t body orelse =>
    exact (hides_expr t).bind fun t => (hides_body body).bind fun body =>
      (hides_body orelse).bind fun orelse =>
      .stmt
  case withBlock l isAsync items body note =>
    exact (hides_withItems items).bind fun items => (hides_body body).bind fun body => .stmt
  case matchOn l s cases => exact (hides_expr s).bind fun s => (hides_cases cases).bind fun cases => .stmt
  case raise l e c => exact (hides_opt e).bind fun e => (hides_opt c).bind fun c => .stmt
  case tryBlock l star body handlers orelse final =>
    exact (hides_body body).bind fun body => (hides_handlers handlers).bind fun handlers =>
      (hides_body orelse).bind fun orelse => (hides_body final).bind fun final =>
      .stmt rfl (by
        intro m
        simp only [parts, children, Stmt.children, mem_append]
        tauto)
  case assert l t m => exact (hides_expr t).bind fun t => (hides_opt m).bind fun m => .stmt
  case expr l e => exact (hides_expr e).bind fun e => .stmt
  case importNames l ns | importFrom l m ns level => exact hides_aliases rfl rfl
  case globalNames l ns | nonlocalNames l ns | pass l | breakLoop l | continueLoop l => exact .stmt

theorem hides_body : ∀ ss, Hides p (maskBody p ss) stmts
  | [] => .pure
  | s :: ss => by
    rw [maskBody]
    exact (hides_stmt s).bind fun s => (hides_body ss).bind fun ss => .pure

theorem hides_handlers : ∀ hs, Hides p (maskHandlers p hs) fun hs => hs.map .handler
  | [] => .pure
  | .mk l type name body :: hs => by
    rw [maskHandlers]
    exact (hides_opt type).bind fun type => (hides_body body).bind fun body =>
      (hides_handlers hs).bind fun hs =>
      .cons

theorem hides_cases : ∀ cs, Hides p (maskCases p cs) fun cs => cs.map .matchCase
  | [] => .pure
  | .mk q guard body :: cs => by
    rw [maskCases]
    exact (hides_pattern q).bind fun q => (hides_opt guard).bind fun guard =>
      (hides_body body).bind fun body => (hides_cases cs).bind fun cs =>
      .cons rfl (by simp [ident?]) (by
        intro m
        simp only [parts, children, mem_append, mem_cons]
        tauto) (by simp)

end

/-! ## Modules -/

/-- In a masked module, every name that stands where the masking goes through is kept on purpose, has
a meaning to the language, or is a masked name of the table. -/
theorem hidden_of_maskModule (preserveBuiltins : Bool) (sensitive : List String) (m : Module) (k : Node) (i : Ident)
    (hk : Below parts (.module (maskModule (.of preserveBuiltins sensitive) m).1) k)
    (hi : ident? k = some i) :
    Hidden (.of preserveBuiltins sensitive) (maskModule (.of preserveBuiltins sensitive) m).2 i := by
  have hp : customaryNames ⊆ (Policy.of preserveBuiltins sensitive).preserved := List.subset_append_right _ _
  obtain ⟨-, -, hbody⟩ := hides_body m.body {} hp (by simp) (by simp)
  have hclean : Clean (.of preserveBuiltins sensitive) (maskModule (.of preserveBuiltins sensitive) m).2
      (.module (maskModule (.of preserveBuiltins sensitive) m).1) :=
    clean_iff.mpr ⟨by simp [ident?], hbody⟩
  exact hclean k hk i hi

/-- A function whose parameter and variable have hints. -/
def hinted : Module where
  body := [.funcDef default false "f"
    (.mk [] [.mk default "a" (some (.name default "Secret" .load)) none] none [] [] none [])
    [.annAssign default (.name default "x" .store) (.name default "int" .load)
      (some (.name default "token" .load)) true] [] none none]

theorem hidden_in_hinted : ∃ k i, Below parts (.module (maskModule (.of true []) hinted).1) k ∧ ident? k = some i ∧
      i.name = "OBJ_1" ∧ Hidden (.of true []) (maskModule (.of true []) hinted).2 i := by
  have hany : ((listed parts (.module (maskModule (.of true []) hinted).1)).filterMap ident?).any
      (·.name == "OBJ_1") := by decide +kernel
  obtain ⟨i, hmem, hname⟩ := List.any_eq_true.mp hany
  obtain ⟨k, hk, hi⟩ := List.mem_filterMap.mp hmem
  have hbelow := (mem_listed parts_subset).mp hk
  exact ⟨k, i, hbelow, hi, by simpa using hname, hidden_of_maskModule true [] hinted k i hbelow hi⟩

/-- The hint of the parameter and the plain value are still there. -/
theorem hint_and_value_shown :
    (∃ k i, Below children (.module (maskModule (.of true []) hinted).1) k ∧ ident? k = some i ∧
      i.name = "Secret" ∧ ¬ Hidden (.of true []) (maskModule (.of true []) hinted).2 i) ∧
    ∃ k i, Below children (.module (maskModule (.of true []) hinted).1) k ∧ ident? k = some i ∧
      i.name = "token" ∧ ¬ Hidden (.of true []) (maskModule (.of true []) hinted).2 i := by
  have hshown (n : String)
      (h : ((listed children (.module (maskModule (.of true []) hinted).1)).filterMap ident?).any fun i =>
        i.name == n && !decide (Hidden (.of true []) (maskModule (.of true []) hinted).2 i)) :
      ∃ k i, Below children (.module (maskModule (.of true []) hinted).1) k ∧ ident? k = some i ∧
        i.name = n ∧ ¬ Hidden (.of true []) (maskModule (.of true []) hinted).2 i := by
    obtain ⟨i, hmem, hname⟩ := List.any_eq_true.mp h
    obtain ⟨k, hk, hi⟩ := List.mem_filterMap.mp hmem
    obtain ⟨hname, hnot⟩ := (Bool.and_eq_true _ _).mp hname
    have hbelow := (mem_listed fun _ => List.Subset.refl _).mp hk
    exact ⟨k, i, hbelow, hi, by simpa using hname, by simpa using hnot⟩
  exact ⟨hshown "Secret" (by decide +kernel), hshown "token" (by decide +kernel)⟩

/-- The table of a masking is an invertible renaming. Masking an expression, a statement or a module moves
the table on by steps, and at every table that steps lead to, reading by masked name and reading by name
are inverse to each other, what a name is masked with is what the table has for it from then on, a name that
has a masked name keeps it under whatever label it comes up later, and no masked name is a kept one. -/
theorem masking_invertible (preserveBuiltins : Bool) (sensitive : List String) :
    (∀ e t, Steps (.of preserveBuiltins sensitive) t ((maskExpr (.of preserveBuiltins sensitive) e).run t).2) ∧
    (∀ s t, Steps (.of preserveBuiltins sensitive) t ((maskStmt (.of preserveBuiltins sensitive) s).run t).2) ∧
    (∀ m, Steps (.of preserveBuiltins sensitive) {} (maskModule (.of preserveBuiltins sensitive) m).2) ∧
    ∀ t, Steps (.of preserveBuiltins sensitive) {} t → (∀ m o, t.entries.lookup m = some o ↔ t.masked? o = some m) ∧
      (∀ m o o', t.masked? o = some m → t.masked? o' = some m → o = o') ∧
      (∀ o ∉ (Policy.of preserveBuiltins sensitive).preserved, ∀ label, ∃ m t',
        (maskName (.of preserveBuiltins sensitive) o label).run t = (m, t') ∧ t'.masked? o = some m) ∧
      (∀ m o, t.masked? o = some m → m ∉ (Policy.of preserveBuiltins sensitive).preserved ∧
        ∀ t', Steps (.of preserveBuiltins sensitive) t t' → ∀ label,
          (maskName (.of preserveBuiltins sensitive) o label).run t' = (m, t')) := by
  have hp : customaryNames ⊆ (Policy.of preserveBuiltins sensitive).preserved := List.subset_append_right _ _
  refine ⟨fun e t => (hides_expr e t hp (by simp) (by simp)).1, fun s t => (hides_stmt s t hp (by simp) (by simp)).1,
    fun m => (hides_body m.body {} hp (by simp) (by simp)).1, fun t ht => ?_⟩
  have hsound := sound_of_steps ht
  refine ⟨fun m o => hsound.lookup_iff, fun m o o' ho ho' => ?_, fun o ho label => ?_,
    fun m o ho => ⟨fun hkept => ?_, fun t' ht' label => ?_⟩⟩
  · exact Option.some.inj ((hsound.lookup_iff.mpr ho).symm.trans (hsound.lookup_iff.mpr ho'))
  · have hsteps := steps_maskName (.of preserveBuiltins sensitive) t o label
    rcases maskName_cases (.of preserveBuiltins sensitive) t o label with ⟨hkept, -⟩ | ⟨m, -, hm, hrun⟩ |
      ⟨_, m, -, -, hmem, hrun⟩
    · exact absurd hkept ho
    · exact ⟨m, t, hrun, hm⟩
    · rw [hrun] at hsteps
      exact ⟨m, _, hrun, (sound_of_steps (ht.trans hsteps)).masked?_iff.mpr hmem⟩
  · obtain ⟨label, n, hm, -⟩ := hsound.numbered _ (hsound.masked?_iff.mp ho)
    have hdigit := endsInDigit_numbered label n
    rw [← hm, not_endsInDigit_of_preserved hkept] at hdigit
    cases hdigit
  · exact maskName_of_masked (hsound.kept _ (hsound.masked?_iff.mp ho)) (ht'.masked? ho) label

end SecScan.Privacy
