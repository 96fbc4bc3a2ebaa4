import SecScan.Proofs.Flow.Contents
import SecScan.Proofs.Flow.Nesting
import SecScan.Proofs.Syntax.Walk

/-!
Which statements of a module reach a block. The blocks of a module's graph hold the flat statements
that can be reached without entering the `else` part of a loop, each as often as it stands there
(`statements_build_perm`). So of all flat statements exactly those below such an `else` part are in
no block (`statements_accounted`, `loop_else_lost`).
-/

namespace SecScan.Flow

open Syntax Node List

variable (n : Node)

/-! ## Flat statements of a tree -/

def flat? : Node → Option Stmt
  | .stmt s => if isFlat s then some s else none
  | _ => none

def flats (ns : List Node) : List Stmt := ns.filterMap flat?

theorem flats_cons (ns : List Node) : flats (n :: ns) = (flat? n).toList ++ flats ns := by
  cases h : flat? n <;> simp [flats, h]

theorem flats_flatMap (f : Node → List Node) (ns : List Node) :
    flats (ns.flatMap f) = ns.flatMap fun n => flats (f n) := filterMap_flatMap

/-- The children of a node, except those in the `else` part of a loop. -/
def mainParts : Node → List Node
  | .stmt (.whileLoop _ test body _) => .expr test :: stmts body
  | .stmt (.forLoop _ _ target iter body _ _) => [.expr target, .expr iter] ++ stmts body
  | n => n.children

def elsePart : Node → List Node
  | .stmt (.whileLoop _ _ _ orelse) => stmts orelse
  | .stmt (.forLoop _ _ _ _ _ orelse _) => stmts orelse
  | _ => []

theorem children_eq_parts : n.children = mainParts n ++ elsePart n := by
  unfold mainParts elsePart
  split <;> simp [children, Stmt.children]

theorem mainParts_subset : mainParts n ⊆ n.children := by
  rw [children_eq_parts n]
  exact subset_append_left _ _

/-- The flat statements below a node that are not in the `else` part of a loop. -/
def mainFlats (n : Node) : List Stmt := flats (listed mainParts n)

theorem mainFlats_perm : (mainFlats n).Perm ((flat? n).toList ++ (mainParts n).flatMap mainFlats) := by
  have hlist : (mainFlats n).Perm (flats (n :: (mainParts n).flatMap (listed mainParts))) :=
    (listed_perm mainParts_subset n).filterMap flat?
  rwa [flats_cons, flats_flatMap] at hlist

def compound : Node → Bool
  | .module _ | .stmt _ | .handler _ | .matchCase _ => true
  | _ => false

theorem compound_of_mem_children {n m : Node} (h : compound n = false) (hm : m ∈ n.children) : compound m = false := by
  cases n with
  | expr e => cases e <;> simp [children, Expr.children, exprs, opt] at hm <;> grind [compound]
  | pattern p => cases p <;> simp [children, Pattern.children, exprs] at hm <;> grind [compound]
  | arguments a => cases a; simp [children, exprs] at hm; grind [compound]
  | arg a => cases a; simp [children, opt] at hm; grind [compound]
  | keyword k => cases k; simp [children] at hm; grind [compound]
  | comprehension c => cases c; simp [children, exprs] at hm; grind [compound]
  | withItem w => simp [children, opt] at hm; grind [compound]
  | «alias» a => simp [children] at hm
  | module | stmt | handler | matchCase => simp [compound] at h

/-- There is no statement in an expression, a pattern or the like. -/
theorem mainFlats_of_not_compound {n : Node} (h : compound n = false) : mainFlats n = [] := by
  have hbelow : ∀ m, Below mainParts n m → compound m = false := by
    intro m hm
    induction hm with
    | self => exact h
    | child _ hk ih => exact compound_of_mem_children ih (mainParts_subset _ hk)
  refine filterMap_eq_nil_iff.mpr fun m hm => ?_
  have hm := hbelow m ((mem_listed mainParts_subset).mp hm)
  cases m with
  | stmt s => simp [compound] at hm
  | _ => rfl

@[simp] theorem mainFlats_expr (e : Expr) : mainFlats (.expr e) = [] := mainFlats_of_not_compound rfl

@[simp] theorem mainFlats_arguments (args : Arguments) : mainFlats (.arguments args) = [] :=
  mainFlats_of_not_compound rfl

@[simp] theorem mainFlats_pattern (p : Pattern) : mainFlats (.pattern p) = [] := mainFlats_of_not_compound rfl

theorem flatMap_mainFlats {ns : List Node} (h : ∀ n ∈ ns, compound n = false) : ns.flatMap mainFlats = [] :=
  flatMap_eq_nil_iff.mpr fun n hn => mainFlats_of_not_compound (h n hn)

@[simp] theorem flatMap_mainFlats_exprs (es : List Expr) : (exprs es).flatMap mainFlats = [] :=
  flatMap_mainFlats (by simp [exprs, compound])

@[simp] theorem flatMap_mainFlats_opt (e : Option Expr) : (opt e).flatMap mainFlats = [] :=
  flatMap_mainFlats (by cases e <;> simp [opt, compound])

@[simp] theorem flatMap_mainFlats_keywords (ks : List Keyword) :
    (ks.map Node.keyword).flatMap mainFlats = [] := flatMap_mainFlats (by simp [compound])

@[simp] theorem flatMap_mainFlats_withItems (ws : List WithItem) :
    (ws.map Node.withItem).flatMap mainFlats = [] := flatMap_mainFlats (by simp [compound])

@[simp] theorem flatMap_mainFlats_aliases (as : List Alias) :
    (as.map Node.alias).flatMap mainFlats = [] := flatMap_mainFlats (by simp [compound])

/-! ## Statements that reach a block -/

def Item.stmt? : Item → Option Stmt
  | .stmt s => some s
  | _ => none

def statements (is : List Item) : List Stmt := is.filterMap Item.stmt?

@[simp] theorem statements_append (is js : List Item) :
    statements (is ++ js) = statements is ++ statements js := filterMap_append

@[simp] theorem statements_expr (e : Expr) (is : List Item) : statements (.expr e :: is) = statements is := rfl

@[simp] theorem statements_params (args : Arguments) : statements (Builder.params args) = [] := by
  cases args
  refine filterMap_eq_nil_iff.mpr fun i hi => ?_
  obtain ⟨a, -, rfl⟩ := mem_map.mp hi
  rfl

@[simp] theorem statements_withItems (items : List WithItem) : statements (Builder.withItems items) = [] := by
  refine filterMap_eq_nil_iff.mpr fun i hi => ?_
  obtain ⟨w, -, hi⟩ := mem_flatMap.mp hi
  cases hv : w.vars with
  | none => simp_all [Item.stmt?]
  | some e => rcases (by simpa [hv] using hi) with rfl | rfl <;> rfl

mutual

/-- What a statement puts into blocks are its flat statements outside of `else` parts of loops. -/
theorem mainFlats_stmt (s : Stmt) : (mainFlats (.stmt s)).Perm (statements (nodes s)) := by
  refine (mainFlats_perm _).trans ?_
  cases s
  case funcDef body _ _ _ | classDef body _ | withBlock body _ =>
    simpa [mainParts, children, Stmt.children, flat?, isFlat, nodes] using mainFlats_body body
  case cond body orelse =>
    simpa [mainParts, children, Stmt.children, flat?, isFlat, nodes] using
      (mainFlats_body body).append (mainFlats_body orelse)
  case whileLoop body _ | forLoop body _ _ =>
    simpa [mainParts, flat?, isFlat, nodes] using mainFlats_body body
  case matchOn cs => simpa [mainParts, children, Stmt.children, flat?, isFlat, nodes] using mainFlats_cases cs
  case tryBlock body hs orelse final =>
    simpa [mainParts, children, Stmt.children, flat?, isFlat, nodes] using
      (mainFlats_body body).append ((mainFlats_handlers hs).append
        ((mainFlats_body orelse).append (mainFlats_body final)))
  all_goals simp [mainParts, children, Stmt.children, flat?, isFlat, nodes, statements, Item.stmt?]

theorem mainFlats_body : ∀ ss : List Stmt, ((stmts ss).flatMap mainFlats).Perm (statements (nodesAll ss))
  | [] => .nil
  | s :: ss => by
    rw [nodesAll, statements_append]
    exact (mainFlats_stmt s).append (mainFlats_body ss)

theorem mainFlats_handlers : ∀ hs : List Handler,
    ((hs.map Node.handler).flatMap mainFlats).Perm (statements (nodesHandlers hs))
  | [] => .nil
  | .mk _ _ _ body :: hs => by
    rw [nodesHandlers, statements_append]
    refine List.Perm.append ((mainFlats_perm _).trans ?_) (mainFlats_handlers hs)
    simpa [mainParts, children, flat?] using mainFlats_body body

theorem mainFlats_cases : ∀ cs : List MatchCase,
    ((cs.map Node.matchCase).flatMap mainFlats).Perm (statements (nodesCases cs))
  | [] => .nil
  | .mk _ _ body :: cs => by
    rw [nodesCases, statements_append]
    refine List.Perm.append ((mainFlats_perm _).trans ?_) (mainFlats_cases cs)
    simpa [mainParts, children, flat?] using mainFlats_body body

end

/-- The blocks hold the flat statements outside of the `else` parts of loops. -/
theorem statements_build_perm (name : String) (m : Module) :
    (statements (Graph.build name (.module m)).contents).Perm (mainFlats (.module m)) := by
  have hmodule : (mainFlats (.module m)).Perm ((stmts m.body).flatMap mainFlats) := mainFlats_perm (.module m)
  exact ((contents_build name m).filterMap Item.stmt?).trans (hmodule.trans (mainFlats_body m.body)).symm

/-- The flat statements below the `else` parts of loops. -/
def elseFlats (m : Module) : List Stmt :=
  flats ((listed mainParts (.module m)).flatMap fun n => (elsePart n).flatMap walk)

/-- Every flat statement of a module stands in one place of one block, unless it is below the `else`
part of a loop, and no block holds another statement. -/
theorem statements_accounted (name : String) (m : Module) : (flats (Node.module m).walk).Perm
      (statements (Graph.build name (.module m)).contents ++ elseFlats m) := by
  have hsplit := (listed_split children_eq_parts (.module m)).filterMap flat?
  rw [filterMap_append] at hsplit
  have helse : elseFlats m = flats ((listed mainParts (.module m)).flatMap fun n =>
      (elsePart n).flatMap (listed children)) := by
    simp only [elseFlats, funext walk_eq]
  rw [walk_eq, helse]
  exact hsplit.trans ((statements_build_perm name m).symm.append_right _)

/-- `while c: x = 1` with `else: y = 2` -/
def searching : Module where
  body := [.whileLoop ⟨1, 0, 4, 9⟩ (.name ⟨1, 6, 1, 7⟩ "c" .load)
    [.assign ⟨2, 4, 2, 9⟩ [.name ⟨2, 4, 2, 5⟩ "x" .store] (.constant ⟨2, 8, 2, 9⟩ (.nat 1) none) none]
    [.assign ⟨4, 4, 4, 9⟩ [.name ⟨4, 4, 4, 5⟩ "y" .store] (.constant ⟨4, 8, 4, 9⟩ (.nat 2) none) none]]

/-- Of the two assignments only the one in the loop's body is in a block. -/
theorem loop_else_lost : (flats (Node.module searching).walk).map Stmt.loc = [⟨2, 4, 2, 9⟩, ⟨4, 4, 4, 9⟩] ∧
    (statements (Graph.build "m" (.module searching)).contents).map Stmt.loc = [⟨2, 4, 2, 9⟩] := by
  decide

end SecScan.Flow
