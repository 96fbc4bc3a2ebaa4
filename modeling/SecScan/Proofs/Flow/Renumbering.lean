import Mathlib.Algebra.GroupWithZero.Nat
import Mathlib.Algebra.Order.Group.Nat
import Mathlib.Data.List.Find
import SecScan.Proofs.Flow.Growth

/-!
One counter numbers the blocks of all the graphs that are built. A graph that is built after others is the
graph that is built first, with its blocks numbered on from those of the others (`buildEach_eq`).
-/

namespace SecScan.Flow

open Syntax List SecScan.Flow.Graph Builder

variable (k : Nat)

def Block.shift (x : Block) : Block := { x with id := x.id + k }

def Edge.shift (e : Edge) : Edge := { e with source := e.source + k, target := e.target + k }

/-- The same graph with every block id increased by `k`. -/
def Graph.shift (g : Graph) : Graph :=
  { g with entry := g.entry + k, blocks := g.blocks.map (·.shift k), edges := g.edges.map (·.shift k) }

theorem beq_add_right (m n : Nat) : (m + k == n + k) = (m == n) := by
  rw [Bool.eq_iff_iff, beq_iff_eq, beq_iff_eq, Nat.add_right_cancel_iff]

namespace Graph

theorem block?_shift (g : Graph) (n : Nat) : (g.shift k).block? (n + k) = (g.block? n).map (·.shift k) := by
  simp only [block?, shift, find?_map, Function.comp_def, Block.shift, beq_add_right]

theorem putEdge_shift (e : Edge) (es : List Edge) :
    putEdge (e.shift k) (es.map (·.shift k)) = (putEdge e es).map (·.shift k) := by
  induction es with
  | nil => rfl
  | cons e' es ih =>
    have hsame : ((e'.shift k).source == (e.shift k).source && (e'.shift k).target == (e.shift k).target) =
        (e'.source == e.source && e'.target == e.target) := by simp only [Edge.shift, beq_add_right]
    rw [map_cons, putEdge, putEdge, hsame, ih, apply_ite (map _)]
    rfl

theorem addEdge_shift (g : Graph) (s t : Nat) (l : Option Label) :
    (g.shift k).addEdge (s + k) (t + k) l = (g.addEdge s t l).shift k :=
  congrArg (fun edges => { g.shift k with edges }) (putEdge_shift k ⟨s, t, l⟩ g.edges)

theorem addItem_shift (g : Graph) (n : Nat) (i : Item) : (g.shift k).addItem (n + k) i = (g.addItem n i).shift k := by
  simp only [addItem, shift, map_map]
  congr 2
  funext x
  simp only [Function.comp_apply, Block.shift, beq_add_right]
  split <;> rfl

end Graph

namespace Builder

open SecScan.Flow.Graph

/-- The same stage of building with every block id increased by `k`. -/
def shift (b : Builder) : Builder :=
  { b with graph := b.graph.shift k, count := b.count + k, current := b.current + k, given := b.given.map (·.shift k) }

variable (b c : Builder)

@[simp] theorem count_shift : (b.shift k).count = b.count + k := rfl

@[simp] theorem current_shift : (b.shift k).current = b.current + k := rfl

@[simp] theorem newBlock_shift (scopes : List (String × Node)) (scope : Scope) (n : Nat) :
    (b.shift k).newBlock scopes scope (n + k) = (b.newBlock scopes scope n).shift k := by
  simp [newBlock, shift, Graph.shift, addBlock, Block.shift, Nat.add_right_comm]

@[simp] theorem fresh_shift : (b.shift k).fresh = b.fresh.shift k := newBlock_shift k b _ _ _

@[simp] theorem edge_shift (s t : Nat) (l : Option Label) :
    (b.shift k).edge (s + k) (t + k) l = (b.edge s t l).shift k := by
  simp only [edge, shift, addEdge_shift, map_append, map_singleton]
  rfl

@[simp] theorem moveTo_shift (n : Nat) : (b.shift k).moveTo (n + k) = (b.moveTo n).shift k := rfl

@[simp] theorem addAll_shift (is : List Item) : (b.shift k).addAll is = (b.addAll is).shift k := by
  induction is generalizing b with
  | nil => rfl
  | cons i is ih =>
    have hadd : (b.shift k).add i = (b.add i).shift k := by simp only [add, shift, addItem_shift]
    exact (congrArg (·.addAll is) hadd).trans (ih (b.add i))

@[simp] theorem advance_shift (l : Option Label) : (b.shift k).advance l = (b.advance l).shift k := by
  simp [advance]

theorem flat_shift (s : Stmt) : (b.shift k).flat s = (b.flat s).shift k := by
  have hadd : ∀ c : Builder, (c.shift k).add (.stmt s) = (c.add (.stmt s)).shift k :=
    fun c => addAll_shift k c [.stmt s]
  have hempty : (b.shift k).currentEmpty = b.currentEmpty := by
    have hblock : (b.shift k).graph.block? (b.current + k) = _ := block?_shift k b.graph b.current
    rw [currentEmpty, currentEmpty, current_shift, hblock]
    cases b.graph.block? b.current <;> rfl
  simp only [flat, hempty, apply_ite (shift k), ← hadd, ← advance_shift]

@[simp] theorem enterFunction_shift (name : String) (owner : Stmt) (args : Arguments) (linked : Bool) :
    (b.shift k).enterFunction name owner args linked = (b.enterFunction name owner args linked).shift k := by
  have hscopes : (b.shift k).graph.scopes = b.graph.scopes := rfl
  have hscope : (b.shift k).scope = b.scope := rfl
  simp [enterFunction, openFunction, hscopes, hscope, Nat.add_right_comm _ k, ← apply_ite (shift k)]

@[simp] theorem leaveFunction_shift : (b.shift k).leaveFunction (c.shift k) = (b.leaveFunction c).shift k := by
  let d : Builder := { b with scope := c.scope }
  show ((d.shift k).fresh.edge (c.current + k) (d.shift k).fresh.count _).moveTo (d.shift k).fresh.count = _
  rw [fresh_shift, count_shift, edge_shift, moveTo_shift]
  rfl

@[simp] theorem openLoop_shift (header : List Item) (enter leave : Label) :
    (b.shift k).openLoop header enter leave = (b.openLoop header enter leave).shift k := by
  simp [openLoop, Nat.add_right_comm _ k]

@[simp] theorem fork_shift (test : Expr) (blocks : Nat) :
    (b.shift k).fork test blocks = (b.fork test blocks).shift k := by
  have hfresh : ∀ n, Nat.repeat fresh n ((b.shift k).add (.expr test)) =
      (Nat.repeat fresh n (b.add (.expr test))).shift k := by
    intro n
    induction n with
    | zero => exact addAll_shift k b [.expr test]
    | succ n ih => rw [Nat.repeat, ih, fresh_shift, Nat.repeat]
  simp [fork, hfresh, Nat.add_right_comm _ k]

@[simp] theorem turn_shift (blocks : Nat) : (b.shift k).turn (c.shift k) blocks = (b.turn c blocks).shift k := by
  simp [turn, Nat.add_right_comm _ k]

@[simp] theorem meet_shift : (b.shift k).meet (c.shift k) = (b.meet c).shift k := by
  simp [meet, Nat.add_right_comm _ k]

@[simp] theorem closeLoop_shift : (b.shift k).closeLoop (c.shift k) = (b.closeLoop c).shift k := by
  simp [closeLoop, Nat.add_right_comm _ k]

mutual

theorem stmt_shift : ∀ (s : Stmt) (b : Builder), (b.shift k).stmt s = (b.stmt s).shift k
  | .funcDef _ _ _ _ bdy _ _ _, b => by simp [stmt, body_shift bdy]
  | .classDef _ _ _ _ bdy _, b => body_shift bdy b
  | .cond _ _ thenPart [], b => by simp [stmt, body_shift thenPart]
  | .cond _ _ thenPart (s :: rest), b => by
    simp [stmt, body_shift thenPart, body_shift (s :: rest)]
  | .whileLoop _ _ bdy _, b | .forLoop _ _ _ _ bdy _ _, b => by
    simp [stmt, body_shift bdy]
  | .withBlock _ isAsync _ bdy _, b => by
    cases isAsync <;> simp [stmt, body_shift bdy]
  | .matchOn _ _ cs, b => cases_shift cs b
  | .tryBlock _ _ bdy hs orelse final, b => by
    simp only [stmt, body_shift bdy, handlers_shift hs, body_shift orelse, body_shift final]
  | .assign .., b | .augAssign .., b | .annAssign .., b | .expr .., b | .ret .., b => flat_shift k b _
  | .delete .., _ | .raise .., _ | .assert .., _ | .importNames .., _ | .importFrom .., _ | .globalNames .., _
  | .nonlocalNames .., _ | .pass _, _ | .breakLoop _, _ | .continueLoop _, _ => rfl

theorem body_shift : ∀ (ss : List Stmt) (b : Builder), (b.shift k).body ss = (b.body ss).shift k
  | [], _ => rfl
  | s :: ss, b => by simp only [body, stmt_shift s, body_shift ss]

theorem handlers_shift : ∀ (hs : List Handler) (b : Builder), (b.shift k).handlers hs = (b.handlers hs).shift k
  | [], _ => rfl
  | .mk _ _ _ bdy :: hs, b => by simp only [handlers, body_shift bdy, handlers_shift hs]

theorem cases_shift : ∀ (cs : List MatchCase) (b : Builder), (b.shift k).cases cs = (b.cases cs).shift k
  | [], _ => rfl
  | .mk _ _ bdy :: cs, b => by simp only [cases, body_shift bdy, cases_shift cs]

end

theorem root_shift (n : Node) : (b.shift k).root n = (b.root n).shift k := by
  unfold root
  split
  · exact body_shift k _ b
  · simp [body_shift]
  · exact stmt_shift k _ b
  · rfl

theorem start_shift (name : String) (n : Node) : start k name n = (start 0 name n).shift k := by
  simp [start, fresh, newBlock, moveTo, shift, Graph.shift, addBlock, Block.shift, Nat.add_comm k]

end Builder

/-- Building from some count on makes the same graph with shifted ids, and counts its blocks. -/
theorem buildFrom_eq (name : String) (n : Node) : buildFrom k name n =
    ((build name n).shift k, (build name n).blocks.length + k) := by
  have hsized := (stage_build 0 name n).sound.sized
  rw [(stage_build 0 name n).entry] at hsized
  change 1 + (build name n).blocks.length = _ at hsized
  rw [buildFrom, start_shift, root_shift]
  refine Prod.ext rfl ?_
  rw [count_shift]
  omega

/-- The graphs of some nodes, built one after another with one counter. -/
def buildEach (count : Nat) : List (String × Node) → List Graph
  | [] => []
  | (name, n) :: rest =>
    let (g, count) := buildFrom count name n
    g :: buildEach count rest

/-- Each graph is the one that is built first for its node, its block ids increased by the number of the
blocks in the graphs before it. -/
theorem buildEach_eq (count : Nat) (inputs : List (String × Node)) (i : Nat) : (buildEach count inputs)[i]? =
    inputs[i]?.map fun x => (Graph.build x.1 x.2).shift
      (((inputs.take i).map fun y => (Graph.build y.1 y.2).blocks.length).sum + count) := by
  induction inputs generalizing count i with
  | nil => rfl
  | cons x rest ih =>
    rw [buildEach, buildFrom_eq]
    cases i with
    | zero => simp
    | succ i => simp [ih, Nat.add_assoc, Nat.add_comm]

end SecScan.Flow
