import SecScan.Proofs.Flow.Growth

/-!
What the blocks hold. Building a statement marks blocks of its scope with the items that it evaluates
and with the places where ways part, and blocks of other scopes with those of the functions that it
defines (`Builder.Adds`). So a function has the marks of its own body (`gains_build`), and the blocks of
a graph hold the nodes of what it is built for, each once (`contents_root`).
-/

namespace SecScan.Flow

open Syntax List SecScan.Flow.Graph Builder

def Graph.contents (g : Graph) : List Item := g.blocks.flatMap (·.items)

mutual

/-- The nodes of a statement that are evaluated, those of a function's body with its parameters. -/
def nodes : Stmt → List Item
  | .funcDef _ _ _ args body _ _ _ => params args ++ nodesAll body
  | .classDef _ _ _ _ body _ => nodesAll body
  | .cond _ test thenPart elsePart => .expr test :: (nodesAll thenPart ++ nodesAll elsePart)
  | .whileLoop _ test body _ => .expr test :: nodesAll body
  | .forLoop _ _ target iter body _ _ => .expr target :: .expr iter :: nodesAll body
  | .withBlock _ _ items body _ => withItems items ++ nodesAll body
  | .matchOn _ _ cases => nodesCases cases
  | .tryBlock _ _ body handlers orelse final =>
    nodesAll body ++ (nodesHandlers handlers ++ (nodesAll orelse ++ nodesAll final))
  | s@(.assign ..) => [.stmt s]
  | s@(.augAssign ..) => [.stmt s]
  | s@(.annAssign ..) => [.stmt s]
  | s@(.expr ..) => [.stmt s]
  | s@(.ret ..) => [.stmt s]
  | .delete .. | .raise .. | .assert .. | .importNames .. | .importFrom .. | .globalNames ..
  | .nonlocalNames .. | .pass _ | .breakLoop _ | .continueLoop _ => []

def nodesAll : List Stmt → List Item
  | [] => []
  | s :: rest => nodes s ++ nodesAll rest

def nodesHandlers : List Handler → List Item
  | [] => []
  | .mk _ _ _ body :: rest => nodesAll body ++ nodesHandlers rest

def nodesCases : List MatchCase → List Item
  | [] => []
  | .mk _ _ body :: rest => nodesAll body ++ nodesCases rest

end

/-- The nodes that are evaluated below the node that a graph is built for. -/
def rootNodes : Node → List Item
  | .module m => nodesAll m.body
  | .stmt s => nodes s
  | _ => []

/-! ## What is visited -/

/-- What a scope is marked with: an item that it evaluates, or a place where ways part. -/
inductive Mark where
  | item (i : Item)
  | fork

def Mark.item? : Mark → Option Item
  | .item i => some i
  | .fork => none

structure Definition where
  loc : Loc
  isAsync : Bool
  name : String
  args : Arguments
  body : List Stmt
  decorators : List Expr
  returns : Option Expr
  typeComment : Option String

def Definition.stmt (d : Definition) : Stmt :=
  .funcDef d.loc d.isAsync d.name d.args d.body d.decorators d.returns d.typeComment

/-- Statements as they are visited: the marks of their own scope, and the functions that are defined in
them, each before those defined in it. -/
structure Visited where
  own : List Mark := []
  definitions : List Definition := []

namespace Visited

instance : Append Visited := ⟨fun v w => ⟨v.own ++ w.own, v.definitions ++ w.definitions⟩⟩

def items (is : List Item) : Visited := { own := is.map .item }

def fork : Visited := { own := [.fork] }

end Visited

mutual

def visited : Stmt → Visited
  | .funcDef l a name args body ds r tc =>
    { definitions := ⟨l, a, name, args, body, ds, r, tc⟩ :: (visitedAll body).definitions }
  | .classDef _ _ _ _ body _ => visitedAll body
  | .cond _ test thenPart elsePart => .items [.expr test] ++ visitedAll thenPart ++ .fork ++ visitedAll elsePart
  | .whileLoop _ test body _ => .items [.expr test] ++ .fork ++ visitedAll body
  | .forLoop _ _ target iter body _ _ => .items [.expr target, .expr iter] ++ .fork ++ visitedAll body
  | .withBlock _ _ items body _ => .items (withItems items) ++ visitedAll body
  | .matchOn _ _ cases => visitedCases cases
  | .tryBlock _ _ body handlers orelse final =>
    visitedAll body ++ (visitedHandlers handlers ++ (visitedAll orelse ++ visitedAll final))
  | s@(.assign ..) | s@(.augAssign ..) | s@(.annAssign ..) | s@(.expr ..) | s@(.ret ..) => .items [.stmt s]
  | .delete .. | .raise .. | .assert .. | .importNames .. | .importFrom .. | .globalNames ..
  | .nonlocalNames .. | .pass _ | .breakLoop _ | .continueLoop _ => {}

def visitedAll : List Stmt → Visited
  | [] => {}
  | s :: rest => visited s ++ visitedAll rest

def visitedHandlers : List Handler → Visited
  | [] => {}
  | .mk _ _ _ body :: rest => visitedAll body ++ visitedHandlers rest

def visitedCases : List MatchCase → Visited
  | [] => {}
  | .mk _ _ body :: rest => visitedAll body ++ visitedCases rest

end

/-- The marks of a function: its plain parameters and what its own body has. -/
def Definition.own (d : Definition) : List Mark := (params d.args).map .item ++ (visitedAll d.body).own

namespace Visited

def marks (v : Visited) (scope : String) : List (String × Mark) :=
  v.own.map (scope, ·) ++ v.definitions.flatMap fun d => d.own.map (d.name, ·)

/-- The scopes that are named by then; a later function takes the name of an earlier one. -/
def named (v : Visited) (scopes : List (String × Node)) : List (String × Node) :=
  v.definitions.foldl (fun scopes d => putField d.name (.stmt d.stmt) scopes) scopes

variable (v w : Visited) (scope : String)

theorem append_empty : v ++ {} = v := by
  show (⟨v.own ++ [], v.definitions ++ []⟩ : Visited) = v
  rw [append_nil, append_nil]

theorem marks_append : ((v ++ w).marks scope).Perm (v.marks scope ++ w.marks scope) := by
  show ((v.own ++ w.own).map (scope, ·) ++ (v.definitions ++ w.definitions).flatMap _).Perm _
  rw [map_append, flatMap_append, append_assoc, marks, marks, append_assoc]
  exact (perm_append_comm_assoc ..).append_left _

end Visited

/-! ## Marks of the blocks -/

namespace Graph

def forks (g : Graph) (n : Nat) : Bool := 1 < (g.outEdges n).length

def marksOf (g : Graph) (x : Block) : List Mark := x.items.map .item ++ if g.forks x.id then [.fork] else []

def marks (g : Graph) : List (String × Mark) := g.blocks.flatMap fun x => (g.marksOf x).map (x.scope.name, ·)

def scopeTags (g : Graph) : List String := g.tags.map (·.2.name)

end Graph

/-- If one element changes, so does its part of the joined list only. -/
theorem flatMap_change {α β : Type} {key : α → Nat} {xs : List α} (hnodup : (xs.map key).Nodup) {k : Nat}
    (hk : k ∈ xs.map key) {f f' : α → List β} {more : List β}
    (hother : ∀ x ∈ xs, key x ≠ k → f' x = f x)
    (hsame : ∀ x ∈ xs, key x = k → (f' x).Perm (f x ++ more)) :
    (xs.flatMap f').Perm (xs.flatMap f ++ more) := by
  induction xs with
  | nil => simp at hk
  | cons x xs ih =>
    obtain ⟨hx, hxs⟩ := nodup_cons.mp hnodup
    rw [flatMap_cons, flatMap_cons]
    by_cases hkey : key x = k
    · have hrest : xs.flatMap f' = xs.flatMap f := flatMap_congr fun y hy =>
        hother y (mem_cons_of_mem _ hy) fun heq => hx (hkey ▸ heq ▸ mem_map_of_mem hy)
      rw [hrest, append_assoc]
      refine ((hsame x mem_cons_self hkey).append_right _).trans ?_
      rw [append_assoc]
      exact perm_append_comm.append_left _
    · rw [hother x mem_cons_self hkey, append_assoc]
      refine (ih hxs ?_ (fun y hy => hother y (mem_cons_of_mem _ hy))
        fun y hy => hsame y (mem_cons_of_mem _ hy)).append_left _
      simpa [Ne.symm hkey] using hk

/-- A graph that was built further by what is visited in a scope. -/
structure Graph.Gains (scope : String) (g g' : Graph) (v : Visited) : Prop where
  name : g'.name = g.name
  scopes : g'.scopes = v.named g.scopes
  scopeTags : ∀ n, n ∈ g'.scopeTags ↔ n ∈ g.scopeTags ∨ ∃ d ∈ v.definitions, d.name = n
  marks : g'.marks.Perm (g.marks ++ v.marks scope)

namespace Graph

variable {g g' g'' : Graph} {scope : String} {v w : Visited}

theorem Gains.trans (h1 : g.Gains scope g' v) (h2 : g'.Gains scope g'' w) : g.Gains scope g'' (v ++ w) where
  name := h2.name.trans h1.name
  scopes := by
    rw [h2.scopes, h1.scopes]
    exact (foldl_append ..).symm
  scopeTags n := by
    have happend : (v ++ w).definitions = v.definitions ++ w.definitions := rfl
    rw [h2.scopeTags, h1.scopeTags, or_assoc, happend]
    simp [or_and_right, exists_or]
  marks := by
    refine h2.marks.trans ((h1.marks.append_right _).trans ?_)
    rw [append_assoc]
    exact (v.marks_append w scope).symm.append_left _

theorem marks_addBlock {x : Block} (hitems : x.items = []) (hout : g.outEdges x.id = []) :
    (g.addBlock x).marks = g.marks := by
  have hnone : (g.addBlock x).marksOf x = [] := by
    have hforks : (g.addBlock x).forks x.id = false := by
      show decide (1 < (g.outEdges x.id).length) = false
      simp [hout]
    simp [marksOf, hitems, hforks]
  show (g.blocks ++ [x]).flatMap _ = _
  rw [flatMap_append, flatMap_singleton, hnone]
  exact append_nil _

theorem marks_eq (hblocks : g'.blocks = g.blocks) (hforks : ∀ n, g'.forks n = g.forks n) : g'.marks = g.marks := by
  simp [marks, hblocks, marksOf, hforks]

variable (hg : g.ids.Nodup) {n : Nat} {tag : Scope} (hn : (n, tag) ∈ g.tags)

include hg hn

theorem marks_change {f : Block → List Mark} {m : List Mark} (hother : ∀ x ∈ g.blocks, x.id ≠ n → f x = g.marksOf x)
    (hsame : ∀ x ∈ g.blocks, x.id = n → (f x).Perm (g.marksOf x ++ m)) :
    (g.blocks.flatMap fun x => (f x).map (x.scope.name, ·)).Perm (g.marks ++ m.map (tag.name, ·)) := by
  refine flatMap_change (k := n) hg (mem_map.mpr ?_) (fun x hx hne => ?_) (fun x hx hid => ?_)
  · obtain ⟨x, hx, htag⟩ := mem_map.mp hn
    exact ⟨x, hx, congrArg Prod.fst htag⟩
  · rw [hother x hx hne]
  · have htag : (n, x.scope) ∈ g.tags := hid ▸ mem_map_of_mem hx
    rw [tag_unique hg htag hn, ← map_append]
    exact (hsame x hx hid).map _

theorem gains_addItem (i : Item) : g.Gains tag.name (g.addItem n i) (.items [i]) := by
  let put (x : Block) : Block := if x.id == n then { x with items := x.items ++ [i] } else x
  have hput : ∀ x, (put x).id = x.id ∧ (put x).scope = x.scope := by
    intro x
    simp only [put]
    split <;> exact ⟨rfl, rfl⟩
  refine ⟨rfl, rfl, fun m => ?_, ?_⟩
  · simp [scopeTags, Visited.items]
  · show ((g.blocks.map put).flatMap fun x => (g.marksOf x).map (x.scope.name, ·)).Perm _
    rw [flatMap_map]
    simp only [hput]
    refine (marks_change hg hn (f := fun x => g.marksOf (put x)) (m := [.item i]) (fun x _ hne => ?_)
      fun x _ hid => ?_).trans (by simp [Visited.marks, Visited.items])
    · simp [put, hne]
    · simp only [put, hid, beq_self_eq_true, if_true, marksOf, map_append, append_assoc]
      exact perm_append_comm.append_left _

theorem marks_fork (hblocks : g'.blocks = g.blocks) (hforks : ∀ m, m ≠ n → g'.forks m = g.forks m)
    (hbefore : g.forks n = false) (hafter : g'.forks n = true) :
    g'.marks.Perm (g.marks ++ Visited.fork.marks tag.name) := by
  rw [marks, hblocks]
  refine (marks_change hg hn (f := g'.marksOf) (m := [.fork]) (fun x _ hne => ?_) (fun x _ hid => ?_)).trans
    (by simp [Visited.marks, Visited.fork])
  · rw [marksOf, marksOf, hforks _ hne]
  · rw [marksOf, marksOf, hid, hbefore, hafter]
    simp

end Graph

namespace Builder

variable {b b' b'' : Builder} {v w : Visited}

/-- A later stage of building, in the same scope. -/
structure Adds (b b' : Builder) (v : Visited) : Prop extends b.graph.Gains b.scope.name b'.graph v where
  scope : b'.scope = b.scope

namespace Adds

theorem refl (b : Builder) : b.Adds b {} := ⟨⟨rfl, rfl, by simp, by simp [Visited.marks]⟩, rfl⟩

theorem trans (h1 : b.Adds b' v) (h2 : b'.Adds b'' w) : b.Adds b'' (v ++ w) :=
  ⟨h1.toGains.trans (h1.scope ▸ h2.toGains), h2.scope.trans h1.scope⟩

theorem append_empty (h : b.Adds b' (v ++ {})) : b.Adds b' v := v.append_empty ▸ h

variable (h : b.Adds b' v)
include h

theorem moveTo (n : Nat) : b.Adds (b'.moveTo n) v := ⟨h.toGains, h.scope⟩

theorem fresh (hs : b'.Sound) : b.Adds b'.fresh v where
  name := h.name
  scopes := h.scopes
  scopeTags n := by
    have hmem : n ∈ b'.fresh.graph.scopeTags ↔ n ∈ b'.graph.scopeTags := by
      rw [scopeTags, tags_fresh, map_append, mem_append]
      exact or_iff_left_of_imp fun hn => mem_singleton.mp hn ▸ mem_map_of_mem (f := (·.2.name)) hs.tag
    rw [hmem, h.scopeTags]
  marks := by
    have hmarks : b'.fresh.graph.marks = b'.graph.marks := marks_addBlock rfl (hs.outEdges_new (Nat.lt_succ_self _))
    exact hmarks ▸ h.marks
  scope := h.scope

theorem repeat_fresh (hs : b'.Ready) (blocks : Nat) : b.Adds (Nat.repeat Builder.fresh blocks b') v := by
  induction blocks with
  | zero => exact h
  | succ k ih => exact ih.fresh ((Grows.refl hs).repeat_fresh k).sound

theorem edge {s : Nat} (t : Nat) (l : Option Label) (hout : b'.graph.outEdges s = []) : b.Adds (b'.edge s t l) v := by
  have hforks : ∀ n, (b'.edge s t l).graph.forks n = b'.graph.forks n := by
    intro n
    by_cases hn : n = s
    · simp [forks, hn, outEdges_edge_of_nil t l hout, hout]
    · rw [forks, forks, outEdges_edge_of_ne b' l hn]
  have hmarks : (b'.edge s t l).graph.marks = b'.graph.marks := marks_eq rfl hforks
  exact ⟨⟨h.name, h.scopes, h.scopeTags, hmarks ▸ h.marks⟩, h.scope⟩

theorem part (hids : b'.graph.ids.Nodup) {s t : Nat} {l : Option Label}
    (hs : (s, b.scope) ∈ b'.graph.tags) (hout : b'.graph.outEdges s = [⟨s, t, l⟩]) {o : Nat} (hne : o ≠ t)
    (l' : Option Label) : b.Adds (b'.edge s o l') (v ++ .fork) := by
  have hafter : (b'.edge s o l').graph.outEdges s = [⟨s, t, l⟩] ++ [⟨s, o, l'⟩] := by
    rw [outEdges_edge _ _ (by simp [successors, hout, hne]), hout]
  have hmarks : (b'.edge s o l').graph.marks.Perm (b'.graph.marks ++ Visited.fork.marks b.scope.name) := by
    refine marks_fork hids hs rfl (fun n hne => ?_) ?_ ?_
    · rw [forks, forks, outEdges_edge_of_ne b' l' hne]
    · simp [forks, hout]
    · simp [forks, hafter]
  have hfork : b'.graph.Gains b.scope.name (b'.edge s o l').graph .fork :=
    ⟨rfl, rfl, fun n => by simp [Visited.fork]; rfl, hmarks⟩
  exact ⟨h.toGains.trans hfork, h.scope⟩

end Adds

theorem Sound.adds_addAll (h : b.Sound) (is : List Item) : b.Adds (b.addAll is) (.items is) := by
  induction is generalizing b with
  | nil => exact .refl b
  | cons i is ih =>
    have hadd : b.Adds (b.add i) (.items [i]) := ⟨gains_addItem h.graph.nodup h.tag i, rfl⟩
    exact hadd.trans (ih (h.add i))

namespace Ready

theorem adds_advance (h : b.Ready) (l : Option Label) : b.Adds (b.advance l) {} :=
  (((Adds.refl b).fresh h.toSound).edge _ l h.out).moveTo _

theorem adds_flat (h : b.Ready) (s : Stmt) : b.Adds (b.flat s) (.items [.stmt s]) := by
  unfold Builder.flat
  split
  · have halone : b.Adds (if b.currentEmpty then b else b.advance) {} := by
      split
      · exact .refl b
      · exact h.adds_advance none
    have hadd := halone.trans (h.alone.ready.adds_addAll [.stmt s])
    exact hadd.trans ((h.alone.ready.addAll [.stmt s]).ready.adds_advance (some .resume))
  · exact h.adds_addAll [.stmt s]

theorem adds_openLoop (h : b.Ready) (header : List Item) (enter leave : Label) :
    b.Adds (b.openLoop header enter leave) (.items header ++ .fork) := by
  have hready := ((h.advance none).ready.addAll header).ready
  have hheader := (h.adds_advance none).trans ((h.advance none).sound.adds_addAll header)
  have hgrows := (Grows.refl hready).repeat_fresh 2
  have htop : (b.count + 1, b.scope) ∈ (Nat.repeat Builder.fresh 2 (b.advance.addAll header)).graph.tags := by
    refine hgrows.tags ?_
    rw [tags_addAll]
    exact tag_fresh b
  have hout : (Nat.repeat Builder.fresh 2 (b.advance.addAll header)).graph.outEdges (b.count + 1) = [] := by
    rw [outEdges_repeat_fresh, outEdges_addAll]
    exact (h.advance none).out
  exact (((hheader.repeat_fresh hready 2).edge (b.count + 2) (some enter) hout).part hgrows.sound.graph.nodup
    htop (outEdges_edge_of_nil _ _ hout) (by omega) (some leave)).moveTo _

theorem adds_fork (h : b.Ready) (test : Expr) (blocks : Nat) : b.Adds (b.fork test blocks) (.items [.expr test]) := by
  have hmade := (h.adds_addAll [.expr test]).repeat_fresh (h.addAll [.expr test]).ready blocks
  refine (hmade.edge (s := b.current) (b.count + 1) (some .true) ?_).moveTo _
  rw [outEdges_repeat_fresh, outEdges_addAll, h.out]

end Ready

section body

variable (h : b.Ready) {bdy : List Stmt}
  (hbody : ∀ {c : Builder}, c.Ready → c.Adds (c.body bdy) (visitedAll bdy))

include h hbody

theorem Ready.adds_loop (header : List Item) (enter leave : Label) :
    b.Adds (((b.openLoop header enter leave).body bdy).closeLoop b) (.items header ++ .fork ++ visitedAll bdy) := by
  have hready := (h.openLoop header enter leave).ready
  exact (((h.adds_openLoop header enter leave).trans (hbody hready)).edge _ none (Ready.body bdy hready).out).moveTo _

/-- Going on behind the first branch of a test. -/
theorem Ready.adds_turn (test : Expr) (blocks : Nat) (hblocks : 0 < blocks) :
    b.Adds (((b.fork test blocks).body bdy).turn b blocks) (.items [.expr test] ++ visitedAll bdy ++ .fork) := by
  have hfork := h.fork test blocks hblocks
  have hfill := Ready.body bdy hfork.ready
  have hjoin := ((h.adds_fork test blocks).trans (hbody hfork.ready)).edge (b.count + blocks) none hfill.out
  exact (hjoin.part hfill.sound.graph.nodup (hfill.tags (hfork.tags h.tag)) (hfill.outEdges_taken h _)
    (by omega) (some .false)).moveTo _

/-- The marks of a function stand under its name; behind one that was entered from the block before
ways part. -/
theorem Ready.adds_function (d : Definition) (hd : d.body = bdy) (linked : Bool) :
    b.Adds (((b.enterFunction d.name d.stmt d.args linked).body bdy).leaveFunction b)
      (⟨[], d :: (visitedAll bdy).definitions⟩ ++ if linked then .fork else {}) := by
  let scope : Scope := ⟨d.name, b.scope.nested || !linked⟩
  let c := b.newBlock (putField d.name (.stmt d.stmt) b.graph.scopes) scope (b.count + 1)
  have htags : c.graph.tags = b.graph.tags ++ [(b.count + 1, scope)] := tags_addBlock _ _
  have hmarks : c.graph.marks = b.graph.marks := marks_addBlock rfl (h.outEdges_new (Nat.lt_succ_self _))
  have hopen : c.Adds (b.openFunction d.name d.stmt linked) {} := by
    cases linked with
    | true => exact (Adds.refl c).edge _ (some .entry) h.out
    | false => exact .refl c
  have henter : b.Grown (b.enterFunction d.name d.stmt d.args linked) := h.enterFunction d.args
  have hfill := Ready.body bdy henter.ready
  have hinner : c.Adds ((b.enterFunction d.name d.stmt d.args linked).body bdy)
      (.items (params d.args) ++ visitedAll bdy) := by
    have hargs := hopen.trans (h.openFunction.sound.adds_addAll (params d.args))
    exact hargs.trans (hbody henter.ready)
  have hout := hfill.outEdges_function h
  have hgrows := (henter.trans hfill.toGrown).toGrows
  generalize (b.enterFunction d.name d.stmt d.args linked).body bdy = b' at *
  subst hd
  -- back in the scope and the block before, the function is defined
  have hdefined : b.Adds { b' with scope := b.scope, current := b.current }
      ⟨[], d :: (visitedAll d.body).definitions⟩ :=
    { name := hinner.name
      scopes := hinner.scopes
      scopeTags := fun n => by
        have hnames : n ∈ c.graph.scopeTags ↔ n ∈ b.graph.scopeTags ∨ d.name = n := by
          simp [scopeTags, htags, scope, eq_comm]
        rw [hinner.scopeTags n, hnames, or_assoc, exists_mem_cons_iff]
        exact Iff.rfl
      marks := hmarks ▸ hinner.marks
      scope := rfl }
  have hback := hgrows.back
  have hnext := hdefined.fresh hback.sound
  cases linked with
  | true =>
    have hcount := hfill.count
    rw [count_enterFunction] at hcount
    exact (hnext.part hback.fresh.sound.graph.nodup (hback.fresh.tags h.tag) hout (o := b'.count + 1)
      (by omega) (some .next)).moveTo _
  | false =>
    show b.Adds _ (⟨[], _⟩ ++ {})
    rw [Visited.append_empty]
    exact (hnext.edge (b'.count + 1) (some .next) hout).moveTo _

end body

mutual

theorem Ready.adds_stmt : ∀ (s : Stmt) {b : Builder}, b.Ready → b.Adds (b.stmt s) (visited s)
  | .funcDef l a name args bdy ds r tc, _, h => by
    have hadd := h.adds_function (Ready.adds_body bdy) ⟨l, a, name, args, bdy, ds, r, tc⟩ rfl false
    exact hadd.append_empty
  | .classDef _ _ _ _ bdy _, _, h => Ready.adds_body bdy h
  | .cond l test thenPart [], _, h => by
    rw [visited, visitedAll, Visited.append_empty]
    exact h.adds_turn (Ready.adds_body thenPart) test 2 (by omega)
  | .cond l test thenPart (s :: rest), b, h => by
    have hturn := (Ready.body thenPart (h.fork test 3 (by omega)).ready).turn h (by omega)
    have hadd := h.adds_turn (Ready.adds_body thenPart) test 3 (by omega)
    rw [visited]
    exact ((hadd.trans (Ready.adds_body (s :: rest) hturn.ready)).edge _ none
      (Ready.body (s :: rest) hturn.ready).out).moveTo _
  | .whileLoop _ _ bdy _, _, h | .forLoop _ _ _ _ bdy _ _, _, h => h.adds_loop (Ready.adds_body bdy) _ _ _
  | .withBlock _ isAsync items bdy _, _, h => by
    have hitems := (h.addAll (withItems items)).ready
    have hadd := h.adds_addAll (withItems items)
    cases isAsync with
    | true =>
      have hin := (hitems.advance (some .asyncEnter)).ready
      have hend := (Ready.body bdy hin).ready.adds_advance (some .asyncExit)
      exact hadd.trans ((hitems.adds_advance _).trans ((Ready.adds_body bdy hin).trans hend).append_empty)
    | false => exact hadd.trans (Ready.adds_body bdy hitems)
  | .matchOn _ _ cs, _, h => Ready.adds_cases cs h
  | .tryBlock _ _ bdy hs orelse final, _, h => by
    have hbody := (Ready.body bdy h).ready
    have hhandlers := (Ready.handlers hs hbody).ready
    have helse := (Ready.body orelse hhandlers).ready
    exact (Ready.adds_body bdy h).trans ((Ready.adds_handlers hs hbody).trans
      ((Ready.adds_body orelse hhandlers).trans (Ready.adds_body final helse)))
  | .assign .., _, h | .augAssign .., _, h | .annAssign .., _, h | .expr .., _, h | .ret .., _, h => h.adds_flat _
  | .delete .., b, _ | .raise .., b, _ | .assert .., b, _ | .importNames .., b, _ | .importFrom .., b, _
  | .globalNames .., b, _ | .nonlocalNames .., b, _ | .pass _, b, _ | .breakLoop _, b, _
  | .continueLoop _, b, _ => .refl b

theorem Ready.adds_body : ∀ (ss : List Stmt) {b : Builder}, b.Ready → b.Adds (b.body ss) (visitedAll ss)
  | [], b, _ => .refl b
  | s :: ss, _, h => (Ready.adds_stmt s h).trans (Ready.adds_body ss (Ready.stmt s h).ready)

theorem Ready.adds_handlers : ∀ (hs : List Handler) {b : Builder}, b.Ready → b.Adds (b.handlers hs) (visitedHandlers hs)
  | [], b, _ => .refl b
  | .mk _ _ _ bdy :: hs, _, h => (Ready.adds_body bdy h).trans (Ready.adds_handlers hs (Ready.body bdy h).ready)

theorem Ready.adds_cases : ∀ (cs : List MatchCase) {b : Builder}, b.Ready → b.Adds (b.cases cs) (visitedCases cs)
  | [], b, _ => .refl b
  | .mk _ _ bdy :: cs, _, h => (Ready.adds_body bdy h).trans (Ready.adds_cases cs (Ready.body bdy h).ready)

end

end Builder

/-- What the blocks of a module's graph are marked with, by scope. -/
theorem gains_build (count : Nat) (name : String) (m : Module) :
    (start count name (.module m)).graph.Gains name (buildFrom count name (.module m)).1 (visitedAll m.body) :=
  ((ready_start count name (.module m)).adds_body m.body).toGains

/-! ## Items of the blocks -/

theorem contents_eq (g : Graph) : g.contents = g.marks.filterMap (·.2.item?) := by
  have hblock : ∀ x : Block, x.items = ((g.marksOf x).map (x.scope.name, ·)).filterMap (·.2.item?) := by
    intro x
    rw [filterMap_map]
    show x.items = (g.marksOf x).filterMap Mark.item?
    rw [marksOf, filterMap_append, filterMap_map]
    show x.items = x.items.filterMap some ++ _
    split <;> simp [Mark.item?]
  rw [contents, marks, filterMap_flatMap]
  exact flatMap_congr fun x _ => hblock x

namespace Visited

def evaluated (v : Visited) : List Item :=
  v.own.filterMap Mark.item? ++ v.definitions.flatMap fun d => d.own.filterMap Mark.item?

theorem evaluated_eq (v : Visited) (scope : String) : v.evaluated = (v.marks scope).filterMap (·.2.item?) := by
  simp [evaluated, marks, filterMap_flatMap]

theorem evaluated_append {v w : Visited} {is js : List Item} (hv : v.evaluated.Perm is)
    (hw : w.evaluated.Perm js) : (v ++ w).evaluated.Perm (is ++ js) := by
  rw [evaluated_eq _ ""] at hv hw ⊢
  refine ((v.marks_append w "").filterMap _).trans ?_
  rw [filterMap_append]
  exact hv.append hw

theorem evaluated_items (is : List Item) : (items is).evaluated.Perm is := by
  show ((is.map Mark.item).filterMap Mark.item? ++ []).Perm is
  rw [filterMap_map, append_nil]
  exact .of_eq filterMap_some

theorem evaluated_fork {v : Visited} {is : List Item} (hv : v.evaluated.Perm is) : (v ++ fork).evaluated.Perm is := by
  have h := evaluated_append hv (.refl fork.evaluated)
  rwa [show fork.evaluated = [] from rfl, append_nil] at h

end Visited

open Visited

mutual

theorem evaluated_visited : ∀ s : Stmt, (visited s).evaluated.Perm (nodes s)
  | .funcDef _ _ _ args body _ _ _ => evaluated_append (evaluated_items (params args)) (evaluated_visitedAll body)
  | .classDef _ _ _ _ body _ => evaluated_visitedAll body
  | .cond _ test thenPart elsePart => evaluated_append (evaluated_fork
      (evaluated_append (evaluated_items [.expr test]) (evaluated_visitedAll thenPart))) (evaluated_visitedAll elsePart)
  | .whileLoop _ _ body _ => evaluated_append (evaluated_fork (evaluated_items _)) (evaluated_visitedAll body)
  | .forLoop _ _ _ _ body _ _ => evaluated_append (evaluated_fork (evaluated_items _)) (evaluated_visitedAll body)
  | .withBlock _ _ _ body _ => evaluated_append (evaluated_items _) (evaluated_visitedAll body)
  | .matchOn _ _ cases => evaluated_visitedCases cases
  | .tryBlock _ _ body handlers orelse final =>
    evaluated_append (evaluated_visitedAll body) (evaluated_append (evaluated_visitedHandlers handlers)
      (evaluated_append (evaluated_visitedAll orelse) (evaluated_visitedAll final)))
  | .assign .. | .augAssign .. | .annAssign .. | .expr .. | .ret .. => evaluated_items _
  | .delete .. | .raise .. | .assert .. | .importNames .. | .importFrom .. | .globalNames ..
  | .nonlocalNames .. | .pass _ | .breakLoop _ | .continueLoop _ => .refl []

theorem evaluated_visitedAll : ∀ ss : List Stmt, (visitedAll ss).evaluated.Perm (nodesAll ss)
  | [] => .refl []
  | s :: ss => evaluated_append (evaluated_visited s) (evaluated_visitedAll ss)

theorem evaluated_visitedHandlers : ∀ hs : List Handler, (visitedHandlers hs).evaluated.Perm (nodesHandlers hs)
  | [] => .refl []
  | .mk _ _ _ body :: hs => evaluated_append (evaluated_visitedAll body) (evaluated_visitedHandlers hs)

theorem evaluated_visitedCases : ∀ cs : List MatchCase, (visitedCases cs).evaluated.Perm (nodesCases cs)
  | [] => .refl []
  | .mk _ _ body :: cs => evaluated_append (evaluated_visitedAll body) (evaluated_visitedCases cs)

end

/-- Visiting the node that a graph is built for adds its nodes. -/
theorem Builder.Ready.adds_root {b : Builder} (h : b.Ready) (n : Node) :
    ∃ v, b.Adds (b.root n) v ∧ v.evaluated.Perm (rootNodes n) := by
  unfold Builder.root
  split
  · exact ⟨_, h.adds_body _, evaluated_visitedAll _⟩
  · rename_i l a name args bdy ds r tc
    exact ⟨_, h.adds_function (Ready.adds_body bdy) ⟨l, a, name, args, bdy, ds, r, tc⟩ rfl true,
      evaluated_fork (evaluated_visited (.funcDef l a name args bdy ds r tc))⟩
  · exact ⟨_, h.adds_stmt _, evaluated_visited _⟩
  next hmodule _ hstmt =>
    refine ⟨{}, .refl b, ?_⟩
    unfold rootNodes
    split
    · exact absurd rfl (hmodule _)
    · exact absurd rfl (hstmt _)
    · exact .refl []

/-- The blocks of a graph hold the nodes of what it is built for, each as often as it stands there. -/
theorem contents_root (name : String) (n : Node) : (build name n).contents.Perm (rootNodes n) := by
  obtain ⟨v, hadd, hv⟩ := (ready_start 0 name n).adds_root n
  have hmarks : (build name n).marks.Perm (v.marks name) := hadd.marks
  rw [contents_eq]
  refine (hmarks.filterMap _).trans ?_
  rwa [← evaluated_eq]

theorem contents_build (name : String) (m : Module) :
    (build name (.module m)).contents.Perm (nodesAll m.body) := contents_root name (.module m)

end SecScan.Flow
