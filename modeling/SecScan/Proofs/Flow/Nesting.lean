import SecScan.Proofs.Flow.Growth

/-!
Stages inside stages. Building a branch or the body of a loop is a part of building the statement
(`Builder.Part`), and parts of parts are parts. So every statement of a program is built as a part of
the whole, wherever it stands (`Stands.part`), and what is known of the finished graph can be carried
to it: the blocks it made are as it left them (`Builder.Keeps`), and outside of loops no edge was led
to them later (`Builder.Frozen`).

For a test outside of loops this gives the shape of its branches (`Branch`): only the test leads into a
branch, and one branch does not lead to the other.
-/

namespace SecScan.Flow

open Syntax List

variable {ps : List Nat} {s : Stmt} {b : Builder} {test : Expr} {blocks : Nat}
variable {ss : List Stmt} {n x y : Nat}

namespace Builder

variable {b b' b'' e : Builder} {g : Graph}

/-! ## Blocks of a stage -/

/-- The block was being filled when a stage began or was made in it. -/
def Within (b b' : Builder) (n : Nat) : Prop := n = b.current ∨ b.count < n ∧ n ≤ b'.count

namespace Stage

variable (h : b.Stage b')

include h

theorem within_successor {c : Nat} (hn : b.Within b' n) (hc : c ∈ b'.graph.successors n) : b.Within b' c := by
  obtain ⟨e, he, rfl⟩ := mem_map.mp hc
  refine .inr ⟨h.target n (hn.imp_right And.left) e he, h.sound.le _ ?_⟩
  exact h.sound.graph.target_mem e (mem_filter.mp he).1

theorem within_current : b.Within b' b'.current :=
  h.current.imp_right fun hlt => ⟨hlt, h.sound.le _ h.sound.current⟩

theorem within_le (hn : b.Within b' n) : n ≤ b'.count := by
  have := h.start.made
  have := h.count
  rcases hn with hn | hn <;> omega

/-- An edge to a block that was there before was there before. -/
theorem mem_successors_old (hy : y ≤ b.count) (hxy : y ∈ b'.graph.successors x) :
    y ∈ b.graph.successors x := by
  obtain ⟨e, he, rfl⟩ := mem_map.mp hxy
  by_cases hx : x = b.current ∨ b.count < x
  · exact absurd (h.target x hx e he) (by omega)
  · rw [h.outEdges x (by omega) (by omega)] at he
    exact mem_map_of_mem he

/-- Edges into a stage come from the stage or were there before. -/
theorem entered (hy : b.Within b' y) (hxy : y ∈ b'.graph.successors x) :
    b.Within b' x ∨ y = b.current ∧ y ∈ b.graph.successors x := by
  by_cases hx : b.Within b' x
  · exact .inl hx
  have hmade := h.start.made
  rcases hy with rfl | ⟨hnew, -⟩
  · exact .inr ⟨rfl, h.mem_successors_old hmade hxy⟩
  · obtain ⟨e, he, rfl⟩ := mem_map.mp hxy
    have hle := h.sound.le _ (h.sound.graph.source_mem e (mem_filter.mp he).1)
    rw [beq_iff_eq.mp (mem_filter.mp he).2] at hle
    simp only [Within] at hx
    rw [h.outEdges x (by omega) (by omega)] at he
    have htarget := h.start.le _ (h.start.graph.target_mem e (mem_filter.mp he).1)
    omega

theorem itemsOf_subset (n : Nat) : b.graph.itemsOf n ⊆ b'.graph.itemsOf n := by
  by_cases hn : n ≤ b.count
  · by_cases hne : n = b.current
    · exact hne ▸ h.filled.subset
    · rw [h.items n hn hne]
      exact Subset.refl _
  · rw [h.start.itemsOf_new (by omega)]
    exact nil_subset _

end Stage

/-- The graph has the blocks of a stage as the stage left them, except for the one where filling went
on. -/
structure Keeps (g : Graph) (b b' : Builder) : Prop where
  items : ∀ n, b.Within b' n → n ≠ b'.current → g.itemsOf n = b'.graph.itemsOf n
  outEdges : ∀ n, b.Within b' n → n ≠ b'.current → g.outEdges n = b'.graph.outEdges n

theorem Keeps.successors (h : Keeps g b b') (hn : b.Within b' n) (hne : n ≠ b'.current) :
    g.successors n = b'.graph.successors n := by
  rw [Graph.successors, Graph.successors, h.outEdges n hn hne]

/-! ## Edges that come later -/

/-- Blocks that were made and left to be filled later. -/
def Pending (b : Builder) (ps : List Nat) : Prop := ∀ p ∈ ps, p ≤ b.count ∧ p ≠ b.current

/-- Nothing was filled so far of what is pending, and the graph has no other edges to blocks made so
far. -/
structure Frozen (g : Graph) (b : Builder) (ps : List Nat) : Prop where
  edges : ∀ x y, y ∈ g.successors x → y ≤ b.count → y ∉ ps → y ∈ b.graph.successors x
  unfilled : ∀ p ∈ ps, b.graph.outEdges p = []

theorem Stage.pending (h : b.Stage b') (hp : b.Pending ps) : b'.Pending ps :=
  fun p hmem => by
    have := hp p hmem
    have := h.count
    have := h.current
    omega

theorem Stage.frozen (h : b.Stage b') (hp : b.Pending ps) (hf : Frozen g b' ps) :
    Frozen g b ps where
  edges x y hxy hy hmem := h.mem_successors_old hy (hf.edges x y hxy (Nat.le_trans hy h.count) hmem)
  unfilled p hmem := h.outEdges p (hp p hmem).1 (hp p hmem).2 ▸ hf.unfilled p hmem

theorem mem_successors_of_edge {s t : Nat} {l : Option Label}
    (h : y ∈ (b.edge s t l).graph.successors x) (hy : y ≠ t) : y ∈ b.graph.successors x := by
  obtain ⟨e, he, hs, ht⟩ := mem_successors.mp h
  rcases mem_putEdge he with rfl | he
  · exact absurd ht.symm hy
  · exact mem_successors.mpr ⟨e, he, hs, ht⟩

/-! ## Parts -/

/-- Building from `b1` to `e1` is a part of building from `b` to `e`, of one that is repeated only if
`loops`. -/
structure Part (loops : Bool) (b e b1 e1 : Builder) : Prop where
  within : ∀ n, b1.Within e1 n → b.Within e n
  ended : ∀ n, b1.Within e1 n → n ≠ e1.current → n ≠ e.current
  keeps : Keeps e.graph b1 e1
  entry : e.graph.entry = e1.graph.entry
  successors : ∀ n, e1.graph.successors n ⊆ e.graph.successors n
  items : ∀ n, e1.graph.itemsOf n ⊆ e.graph.itemsOf n
  before : Reach e.graph [] b.current b1.current
  after : Reach e.graph [] e1.current e.current
  frozen : loops = false → ∀ g ps, b.Pending ps → Frozen g e ps → ∃ ps', b1.Pending ps' ∧ Frozen g e1 ps'

namespace Part

variable {loops : Bool} {b1 e1 b2 e2 : Builder}

theorem trans (h1 : Part loops b e b1 e1) (h2 : Part loops b1 e1 b2 e2) : Part loops b e b2 e2 where
  within n hn := h1.within n (h2.within n hn)
  ended n hn hne := h1.ended n (h2.within n hn) (h2.ended n hn hne)
  keeps :=
    { items := fun n hn hne => (h1.keeps.items n (h2.within n hn) (h2.ended n hn hne)).trans
        (h2.keeps.items n hn hne)
      outEdges := fun n hn hne => (h1.keeps.outEdges n (h2.within n hn) (h2.ended n hn hne)).trans
        (h2.keeps.outEdges n hn hne) }
  entry := h1.entry.trans h2.entry
  successors n := Subset.trans (h2.successors n) (h1.successors n)
  items n := Subset.trans (h2.items n) (h1.items n)
  before := h1.before.trans (h2.before.mono h1.successors)
  after := (h2.after.mono h1.successors).trans h1.after
  frozen hloops g ps hp hf := by
    obtain ⟨ps', hp', hf'⟩ := h1.frozen hloops g ps hp hf
    exact h2.frozen hloops g ps' hp' hf'

theorem first (h : b.Stage b') (h' : b'.Stage e) : Part loops b e b b' where
  within n hn := by
    have := h'.count
    exact hn.imp_right fun hn => ⟨hn.1, by omega⟩
  ended n hn hne := by
    have := h.within_le hn
    have := h'.current
    omega
  keeps :=
    { items := fun n hn hne => h'.items n (h.within_le hn) hne
      outEdges := fun n hn hne => h'.outEdges n (h.within_le hn) hne }
  entry := h'.entry
  successors := h'.successors
  items := h'.itemsOf_subset
  before := .start (by simp)
  after := h'.reach
  frozen _ g ps hp hf := ⟨ps, hp, h'.frozen (h.pending hp) hf⟩

theorem second (h : b.Stage b') (h' : b'.Stage e) : Part loops b e b' e where
  within n hn := by
    have hcount := h.count
    have hcurrent := h.current
    have hle := h'.within_le hn
    simp only [Within] at hn ⊢
    omega
  ended _ _ hne := hne
  keeps := ⟨fun _ _ _ => rfl, fun _ _ _ => rfl⟩
  entry := rfl
  successors _ := Subset.refl _
  items _ := Subset.refl _
  before := h.reach.mono h'.successors
  after := .start (by simp)
  frozen _ g ps hp hf := ⟨ps, h.pending hp, hf⟩

theorem loop (h : b.Ready) {header : List Item} {enter leave : Label}
    (hbody : (b.openLoop header enter leave).Stage b') :
    Part true b (b'.closeLoop b) (b.openLoop header enter leave) b' := by
  have hcount := hbody.count
  rw [count_openLoop] at hcount
  have hsuccessors : ∀ n, b'.graph.successors n ⊆
      (b'.closeLoop b).graph.successors n := fun n c hc =>
    mem_successors_addEdge (.inl hc)
  refine
    { within := fun n hn => ?_
      ended := fun n hn _ => ?_
      keeps := ⟨fun _ _ _ => rfl, fun n _ hne => outEdges_edge_of_ne _ _ hne⟩
      entry := rfl
      successors := hsuccessors
      items := fun _ => Subset.refl _
      before := ((h.openLoop header enter leave).reach.mono hbody.successors).mono hsuccessors
      after := h.reach_closeLoop hbody (.inr rfl)
      frozen := by simp }
  · simp only [Within, current_openLoop, count_openLoop] at hn
    have hmade : (b'.closeLoop b).count = b'.count := rfl
    simp only [Within]
    omega
  · simp only [Within, current_openLoop, count_openLoop] at hn
    show n ≠ b.count + 3
    omega

section branches

variable {test : Expr} {blocks : Nat} {new ps : List Nat} (h : b.Ready)

section

variable (hnew : ∀ n ∈ new, b.count + 1 < n ∧ n ≤ b.count + blocks) (hp : b.Pending ps)
include hnew hp

/-- The blocks that a fork makes beside its first one wait with those that waited before. -/
theorem pending_fork : (b.fork test blocks).Pending (new ++ ps) := by
  intro n hn
  rw [count_fork, current_fork]
  rcases mem_append.mp hn with hn | hn
  · have := hnew n hn
    omega
  · have := hp n hn
    omega

include h in
theorem unfilled_fork (hout : ∀ n ∈ ps, b.graph.outEdges n = [])
    (hthen : (b.fork test blocks).Stage b') : ∀ n ∈ new ++ ps, b'.graph.outEdges n = [] := by
  intro n hn
  rcases mem_append.mp hn with hn | hn
  · exact hthen.outEdges_pending h (hnew n hn).1 (hnew n hn).2
  · obtain ⟨hle, hne⟩ := hp n hn
    rw [hthen.outEdges n (by rw [count_fork]; omega) (by rw [current_fork]; omega),
      outEdges_fork_of_ne _ _ _ hne, hout n hn]

end

include h

theorem onlyBranch (hthen : (b.fork test 2).Stage b') :
    Part loops b (b'.turn b 2) (b.fork test 2) b' := by
  have hcurrent := h.made
  have hcount := hthen.count
  rw [count_fork] at hcount
  have hturn := hthen.turn h (by omega)
  have hsuccessors : ∀ n, b'.graph.successors n ⊆
      (b'.turn b 2).graph.successors n := fun n c hc =>
    mem_successors_addEdge (.inl (mem_successors_addEdge (.inl hc)))
  have hrange : ∀ n, (b.fork test 2).Within b' n →
      b.count < n ∧ n ≠ b.count + 2 ∧ n ≤ b'.count := fun n hn => by
    simp only [Within, current_fork, count_fork] at hn
    omega
  have hfilled := hrange _ hthen.within_current
  have hnew : ∀ n ∈ [b.count + 2], b.count + 1 < n ∧ n ≤ b.count + 2 := by simp
  refine
    { within := fun n hn => .inr ⟨(hrange n hn).1, (hrange n hn).2.2⟩
      ended := fun n hn _ => (hrange n hn).2.1
      keeps := ⟨fun _ _ _ => rfl, fun n hn hne => outEdges_turn_of_ne _ hne ?_⟩
      entry := rfl
      successors := hsuccessors
      items := fun _ => Subset.refl _
      before := hthen.reach_turn h (by omega) (by simp)
      after := reach_of_outEdges (hthen.ready.outEdges_turn (by omega)) (mem_singleton_self _)
      frozen := fun _ g ps hp hf => ⟨_, pending_fork hnew hp, fun x y hxy hy hmem => ?_,
        unfilled_fork h hnew hp (hturn.frozen hp hf).unfilled hthen⟩ }
  · have := hrange n hn
    omega
  · simp only [mem_append, mem_singleton, not_or] at hmem
    exact mem_successors_of_edge (mem_successors_of_edge (hf.edges x y hxy hy hmem.2) hmem.1) hmem.1

variable (hthen : (b.fork test 3).Stage b') (helse : (b'.turn b 3).Stage b'')
include hthen helse

theorem thenBranch : Part loops b (b''.meet b) (b.fork test 3) b' := by
  have hcurrent := h.made
  have hcount := hthen.count
  rw [count_fork] at hcount
  have hcount' := helse.count
  rw [count_turn] at hcount'
  have hmeet := hthen.meet h helse
  have hsuccessors : ∀ n, b'.graph.successors n ⊆ (b''.meet b).graph.successors n := fun n c hc =>
    mem_successors_addEdge (.inl (helse.successors n
      (mem_successors_addEdge (.inl (mem_successors_addEdge (.inl hc))))))
  have hrange : ∀ n, (b.fork test 3).Within b' n →
      b.count < n ∧ n ≠ b.count + 2 ∧ n ≠ b.count + 3 ∧ n ≤ b'.count := fun n hn => by
    simp only [Within, current_fork, count_fork] at hn
    omega
  have hfilled := hrange _ hthen.within_current
  have hnew : ∀ n ∈ [b.count + 2, b.count + 3], b.count + 1 < n ∧ n ≤ b.count + 3 := by simp
  refine
    { within := fun n hn => .inr ⟨(hrange n hn).1, ?_⟩
      ended := fun n hn _ => (hrange n hn).2.2.1
      keeps := ⟨fun n hn _ => ?_, fun n hn hne => ?_⟩
      entry := helse.entry
      successors := hsuccessors
      items := helse.itemsOf_subset
      before := ((hthen.reach_turn h (by omega) (by simp)).mono helse.successors).addEdge
      after := ?_
      frozen := fun _ g ps hp hf => ⟨_, pending_fork hnew hp, fun x y hxy hy hmem => ?_,
        unfilled_fork h hnew hp (hmeet.frozen hp hf).unfilled hthen⟩ }
  · exact Nat.le_trans (hrange n hn).2.2.2 hcount'
  · exact helse.itemsOf_meet (hrange n hn).2.2.2 (hrange n hn).2.1
  · have := hrange n hn
    rw [helse.outEdges_meet this.2.2.2 this.2.1, outEdges_turn_of_ne _ hne (by omega)]
  · have hturned : Reach (b'.turn b 3).graph [] b'.current (b.count + 3) :=
      reach_of_outEdges (hthen.ready.outEdges_turn (by omega)) (mem_singleton_self _)
    exact hturned.mono fun n c hc => mem_successors_addEdge (.inl (helse.successors n hc))
  · simp only [mem_append, mem_cons, not_mem_nil, or_false, not_or] at hmem
    obtain ⟨⟨hother, hjoin⟩, hmem⟩ := hmem
    have hedge := mem_successors_of_edge (hf.edges x y hxy (Nat.le_trans hy hcount') hmem) hjoin
    exact mem_successors_of_edge (mem_successors_of_edge (helse.mem_successors_old hy hedge) hother) hjoin

theorem elseBranch : Part loops b (b''.meet b) (b'.turn b 3) b'' := by
  have hcurrent := h.made
  have hcount := hthen.count
  rw [count_fork] at hcount
  have hturn := hthen.turn h (by omega)
  have hmeet := hthen.meet h helse
  have hsuccessors : ∀ n, b''.graph.successors n ⊆
      (b''.meet b).graph.successors n := fun n c hc =>
    mem_successors_addEdge (.inl hc)
  have hrange : ∀ n, (b'.turn b 3).Within b'' n →
      b.count < n ∧ n ≠ b.count + 3 ∧ n ≤ b''.count := fun n hn => by
    have hle := helse.within_le hn
    simp only [Within, current_turn, count_turn] at hn
    omega
  refine
    { within := fun n hn => .inr ⟨(hrange n hn).1, (hrange n hn).2.2⟩
      ended := fun n hn _ => (hrange n hn).2.1
      keeps := ⟨fun _ _ _ => rfl, fun n _ hne => outEdges_edge_of_ne _ _ hne⟩
      entry := rfl
      successors := hsuccessors
      items := fun _ => Subset.refl _
      before := (hturn.reach.mono helse.successors).mono hsuccessors
      after := reach_addEdge ..
      frozen := fun _ g ps hp hf => ⟨(b.count + 3) :: ps, ?_, fun x y hxy hy hmem => ?_, ?_⟩ }
  · intro n hn
    rw [count_turn, current_turn]
    rcases mem_cons.mp hn with rfl | hn
    · omega
    · have := hp n hn
      omega
  · simp only [mem_cons, not_or] at hmem
    exact mem_successors_of_edge (hf.edges x y hxy hy hmem.2) hmem.1
  · have hmoved := hthen.current_fork
    have hnew : ∀ n ∈ [b.count + 3], b.count + 1 < n ∧ n ≤ b.count + 3 := by simp
    intro n hn
    have hplace : n ≤ b'.count ∧ n ≠ b.count + 2 ∧ n ≠ b'.current ∧ n ≠ b.current := by
      rcases mem_cons.mp hn with rfl | hn
      · omega
      · have := hp n hn
        omega
    rw [helse.outEdges n hplace.1 hplace.2.1, outEdges_turn_of_ne _ hplace.2.2.1 hplace.2.2.2]
    exact unfilled_fork h hnew hp (hmeet.frozen hp hf).unfilled hthen n hn

end branches

end Part

namespace Ready

variable (h : b.Ready) {loops : Bool}

include h

theorem part_first (s : Stmt) (rest : List Stmt) : Part loops b (b.body (s :: rest)) b (b.stmt s) :=
  .first (Ready.stmt s h) (Ready.body rest (Ready.stmt s h).ready)

theorem part_rest (s : Stmt) (rest : List Stmt) :
    Part loops b (b.body (s :: rest)) (b.stmt s) ((b.stmt s).body rest) :=
  .second (Ready.stmt s h) (Ready.body rest (Ready.stmt s h).ready)

theorem part_then (l : Loc) (test : Expr) (thenPart elsePart : List Stmt) :
    ∃ f, f.Ready ∧ Part loops b (b.stmt (.cond l test thenPart elsePart)) f (f.body thenPart) := by
  cases elsePart with
  | nil =>
    have hfork := h.fork test 2 (by omega)
    exact ⟨_, hfork.ready, .onlyBranch h (Ready.body thenPart hfork.ready)⟩
  | cons s rest =>
    have hfork := h.fork test 3 (by omega)
    have hthen := Ready.body thenPart hfork.ready
    have hturn := hthen.turn h (by omega)
    exact ⟨_, hfork.ready, .thenBranch h hthen (Ready.body (s :: rest) hturn.ready)⟩

theorem part_else (l : Loc) (test : Expr) (thenPart : List Stmt) (s : Stmt) (rest : List Stmt) :
    ∃ f, f.Ready ∧ Part loops b (b.stmt (.cond l test thenPart (s :: rest))) f (f.body (s :: rest)) := by
  have hthen := Ready.body thenPart (h.fork test 3 (by omega)).ready
  have hturn := hthen.turn h (by omega)
  exact ⟨_, hturn.ready, .elseBranch h hthen (Ready.body (s :: rest) hturn.ready)⟩

theorem part_loop (header : List Item) (enter leave : Label) (bdy : List Stmt) :
    Part true b (((b.openLoop header enter leave).body bdy).closeLoop b) (b.openLoop header enter leave)
      ((b.openLoop header enter leave).body bdy) :=
  .loop h (Ready.body bdy (h.openLoop header enter leave).ready)

end Ready

end Builder

/-! ## Statements in their places -/

/-- A statement of a list, of its branches and, if they count, of the bodies of its loops. -/
inductive Stands (loops : Bool) (s : Stmt) : List Stmt → Prop where
  | here {rest : List Stmt} : Stands loops s (s :: rest)
  | later {s' : Stmt} {rest : List Stmt} : Stands loops s rest → Stands loops s (s' :: rest)
  | thenPart {l : Loc} {test : Expr} {thenPart elsePart rest : List Stmt} :
      Stands loops s thenPart → Stands loops s (.cond l test thenPart elsePart :: rest)
  | elsePart {l : Loc} {test : Expr} {thenPart elsePart rest : List Stmt} :
      Stands loops s elsePart → Stands loops s (.cond l test thenPart elsePart :: rest)
  | whileLoop {l : Loc} {test : Expr} {body orelse rest : List Stmt} : loops = true →
      Stands loops s body → Stands loops s (.whileLoop l test body orelse :: rest)
  | forLoop {l : Loc} {isAsync : Bool} {target iter : Expr} {body orelse rest : List Stmt}
      {comment : Option String} : loops = true → Stands loops s body →
      Stands loops s (.forLoop l isAsync target iter body orelse comment :: rest)

theorem Stands.part {loops : Bool} (hs : Stands loops s ss)
    (h : b.Ready) : ∃ b1, b1.Ready ∧ Builder.Part loops b (b.body ss) b1 (b1.stmt s) := by
  induction hs generalizing b with
  | here => exact ⟨b, h, h.part_first _ _⟩
  | later _ ih =>
    obtain ⟨b1, h1, hpart⟩ := ih (Builder.Ready.stmt _ h).ready
    exact ⟨b1, h1, (h.part_rest _ _).trans hpart⟩
  | thenPart _ ih =>
    obtain ⟨f, hf, hbranch⟩ := h.part_then _ _ _ _
    obtain ⟨b1, h1, hpart⟩ := ih hf
    exact ⟨b1, h1, (h.part_first _ _).trans (hbranch.trans hpart)⟩
  | @elsePart _ _ _ elsePart _ hs ih =>
    cases elsePart with
    | nil => cases hs
    | cons =>
      obtain ⟨f, hf, hbranch⟩ := h.part_else _ _ _ _ _
      obtain ⟨b1, h1, hpart⟩ := ih hf
      exact ⟨b1, h1, (h.part_first _ _).trans (hbranch.trans hpart)⟩
  | whileLoop hloops _ ih | forLoop hloops _ ih =>
    subst hloops
    obtain ⟨b1, h1, hpart⟩ := ih (h.openLoop _ _ _).ready
    exact ⟨b1, h1, (h.part_first _ _).trans ((h.part_loop _ _ _ _).trans hpart)⟩

/-! ## Loops around a statement -/

def loopBody? : Stmt → Option (List Stmt)
  | .whileLoop _ _ body _ => some body
  | .forLoop _ _ _ _ body _ _ => some body
  | _ => none

def Looped (s : Stmt) (ss : List Stmt) : Prop :=
  ∃ loop body, Stands true loop ss ∧ loopBody? loop = some body ∧ Stands true s body

namespace Builder

variable {b b' : Builder}

theorem Ready.part_looped (h : b.Ready) {loop : Stmt} {body : List Stmt}
    (hloop : loopBody? loop = some body) (hs : Stands true s body) :
    ∃ b1, b1.Ready ∧ Part true b (b.stmt loop) b1 (b1.stmt s) ∧
      Reach (b.stmt loop).graph [] (b1.stmt s).current b1.current := by
  have hround : ∀ header enter leave, b.stmt loop = ((b.openLoop header enter leave).body body).closeLoop b →
      ∃ b1, b1.Ready ∧ Part true b (b.stmt loop) b1 (b1.stmt s) ∧
        Reach (b.stmt loop).graph [] (b1.stmt s).current b1.current := fun header enter leave heq => by
    have hopen := h.openLoop header enter leave
    have hloop := h.part_loop header enter leave body
    have hback := h.reach_closeLoop (Ready.body body hopen.ready)
      (.inl (current_openLoop b header enter leave))
    obtain ⟨b1, h1, hpart⟩ := hs.part hopen.ready
    rw [heq]
    exact ⟨b1, h1, hloop.trans hpart, ((hpart.after.mono hloop.successors).trans hback).trans
      (hpart.before.mono hloop.successors)⟩
  cases loop with
  | whileLoop | forLoop => cases hloop; exact hround _ _ _ rfl
  | _ => cases hloop

end Builder

/-- What stands in a loop is built as a part of the whole, and its end leads back to its beginning. -/
theorem Looped.part (hs : Looped s ss) (h : b.Ready) :
    ∃ b1, b1.Ready ∧ Builder.Part true b (b.body ss) b1 (b1.stmt s) ∧
      Reach (b.body ss).graph [] (b1.stmt s).current b1.current := by
  obtain ⟨loop, body, hloop, hbody, hs⟩ := hs
  obtain ⟨b1, h1, hpart⟩ := hloop.part h
  obtain ⟨b2, h2, hinner, hround⟩ := h1.part_looped hbody hs
  exact ⟨b2, h2, hpart.trans hinner, hround.mono hpart.successors⟩

/-! ## Flat statements -/

/-- Statements that a block holds as they are. -/
def isFlat : Stmt → Bool
  | .assign .. | .annAssign .. | .augAssign .. | .expr .. | .ret .. => true
  | _ => false

namespace Builder

variable {b : Builder} {s : Stmt}

theorem stmt_of_isFlat (hs : isFlat s) (b : Builder) : b.stmt s = b.flat s := by
  cases s <;> first | rfl | cases hs

theorem Ready.mem_flat (h : b.Ready) (s : Stmt) :
    ∃ n, b.Within (b.flat s) n ∧ .stmt s ∈ (b.flat s).graph.itemsOf n := by
  have hadded : ∀ {b : Builder}, b.Ready → .stmt s ∈ (b.addAll [.stmt s]).graph.itemsOf b.current :=
    fun h => h.itemsOf_addAll [.stmt s] ▸ mem_append_right _ (mem_singleton_self _)
  unfold Builder.flat
  split
  · have hadd := h.alone.ready.addAll [.stmt s]
    have hnext := hadd.ready.advance (some .resume)
    have hpart : Part true b _ _ _ := .second h.alone (hadd.trans hnext)
    refine ⟨_, hpart.within _ (.inl rfl), hnext.itemsOf_subset _ (hadded h.alone.ready)⟩
  · exact ⟨_, .inl rfl, hadded h⟩

end Builder

/-- A flat statement is in one of the blocks that were made for what it stands in. -/
theorem Stands.placed (hs : Stands true s ss) (hflat : isFlat s) (h : b.Ready) :
    ∃ n, b.Within (b.body ss) n ∧ .stmt s ∈ (b.body ss).graph.itemsOf n := by
  obtain ⟨b1, h1, hpart⟩ := hs.part h
  obtain ⟨n, hn, hmem⟩ := h1.mem_flat s
  rw [← Builder.stmt_of_isFlat hflat] at hn hmem
  exact ⟨n, hpart.within n hn, hpart.items n hmem⟩

/-! ## Branches of a test -/

/-- The blocks of a branch are entered only from the test, in the first of them, and the other branch
does not lead there. -/
structure Branch (g : Graph) (test start other : Nat) (inside : Nat → Prop) : Prop where
  entered : ∀ x y, inside y → y ∈ g.successors x → inside x ∨ x = test ∧ y = start
  apart : ∀ y, Reach g [] other y → ¬ inside y
  entry : ¬ inside g.entry

/-- A path to a block of the branch ends with a way inside. -/
theorem Branch.reach {g : Graph} {test start other : Nat} {inside : Nat → Prop}
    (h : Branch g test start other inside) {stop : List Nat} (hstop : ∀ x, inside x → x ∉ stop)
    {t : List Nat} {d : Nat} (ht : Trail g (d :: t)) (hd : inside d) : Reach g stop start d := by
  induction t generalizing d with
  | nil => exact absurd (ht.eq_entry ▸ hd) h.entry
  | cons x t ih =>
    rcases h.entered x d hd ht.edge with hx | ⟨-, rfl⟩
    · exact (ih (ht.tail (by simp)) hx).step ht.edge (hstop d hd)
    · exact .start (hstop d hd)

namespace Builder

variable {b e f f' : Builder} {g : Graph} {ps ps' : List Nat} {other : Nat}

/-- What was made before a test and does not wait is entered only from there, so a stage after the test
that only the test leads to is a branch of it. -/
theorem Frozen.branch (h : b.Ready) (hp : b.Pending ps) (hb : Frozen g b ps) (hstage : f.Stage f')
    (hp' : f.Pending ps') (hf : Frozen g f' ps')
    (hstart : ∀ x, f.current ∈ f.graph.successors x → x = b.current) (hother : b.count < other)
    (hnot : ¬ f.Within f' other) (hlow : ∀ n, f.Within f' n → b.count < n)
    (hentry : g.entry ≤ b.count) : Branch g b.current f.current other (f.Within f') := by
  have hentered : ∀ x y, f.Within f' y → y ∈ g.successors x →
      f.Within f' x ∨ x = b.current ∧ y = f.current := fun x y hy hxy => by
    have hwaits : y ∉ ps' := fun hmem => by
      have := hp' y hmem
      simp only [Within] at hy
      omega
    rcases hstage.entered hy (hf.edges x y hxy (hstage.within_le hy) hwaits) with hx | ⟨rfl, hx⟩
    · exact .inl hx
    · exact .inr ⟨hstart x hx, rfl⟩
  refine ⟨hentered, fun y hy => ?_, fun hin => ?_⟩
  · -- going back from the branch, one stays there or comes to what was made before the test
    suffices hbad : ¬ (f.Within f' y ∨ y ≤ b.count ∧ y ∉ ps) from fun hin => hbad (.inl hin)
    induction hy with
    | start =>
      rintro (hin | ⟨hle, -⟩)
      · exact hnot hin
      · omega
    | @step x y _ hxy _ ih =>
      rintro (hin | ⟨hle, hmem⟩)
      · rcases hentered x y hin hxy with hx | ⟨rfl, -⟩
        · exact ih (.inl hx)
        · exact ih (.inr ⟨h.made, fun hmem => (hp _ hmem).2 rfl⟩)
      · obtain ⟨e, he, rfl⟩ := mem_map.mp (hb.edges x y hxy hle hmem)
        have hx := h.le _ (h.graph.source_mem e (mem_filter.mp he).1)
        rw [beq_iff_eq.mp (mem_filter.mp he).2] at hx
        refine ih (.inr ⟨hx, fun hwaits => ?_⟩)
        simp [hb.unfilled x hwaits] at he
  · have := hlow _ hin
    omega

theorem Sound.successor_le (h : b.Sound) (hxy : y ∈ b.graph.successors x) : y ≤ b.count :=
  h.le _ (h.graph.successor_mem hxy)

/-- Only the test leads to the first block of a fork, and nothing to the others. -/
theorem Ready.enters_fork (h : b.Ready) (hn : b.count < n)
    (hx : n ∈ (b.fork test blocks).graph.successors x) : x = b.current ∧ n = b.count + 1 := by
  by_cases hne : x = b.current
  · rw [Graph.successors, hne, h.outEdges_fork] at hx
    exact ⟨hne, by simpa using hx⟩
  · rw [Graph.successors, outEdges_fork_of_ne _ _ _ hne] at hx
    have := h.successor_le hx
    omega

/-- A test as it was built: the blocks that it leads to, which lead on to where its branches join, and
the branches. -/
structure Tested (b e : Builder) (test : Expr) (thenPart elsePart : List Stmt) : Prop where
  item : .expr test ∈ e.graph.itemsOf b.current
  moved : b.current ≠ e.current
  outEdges : e.graph.outEdges b.current =
    [⟨b.current, b.count + 1, some .true⟩, ⟨b.current, b.count + 2, some .false⟩]
  thenJoins : Reach e.graph [] (b.count + 1) e.current
  elseJoins : Reach e.graph [] (b.count + 2) e.current
  thenBranch : ∀ g ps, b.Pending ps → Frozen g e ps → g.entry ≤ b.count → ∀ s, isFlat s →
    Stands true s thenPart → ∃ inside n, Branch g b.current (b.count + 1) (b.count + 2) inside ∧
      inside n ∧ .stmt s ∈ e.graph.itemsOf n
  elseBranch : ∀ g ps, b.Pending ps → Frozen g e ps → g.entry ≤ b.count → ∀ s, isFlat s →
    Stands true s elsePart → ∃ inside n, Branch g b.current (b.count + 2) (b.count + 1) inside ∧
      inside n ∧ .stmt s ∈ e.graph.itemsOf n

/-- The statements of a part are in a branch of the test, if only the test leads to the part and it
does not hold the beginning of the other branch. -/
theorem Part.branch (hpart : Part false b e f (f.body ss)) (hwhole : b.Stage e) (hready : f.Ready)
    (hstart : ∀ x, f.current ∈ f.graph.successors x → x = b.current) (hother : b.count < other)
    (hnot : ¬ f.Within (f.body ss) other) (hlow : ∀ n, f.Within (f.body ss) n → b.count < n)
    (hp : b.Pending ps) (hf : Frozen g e ps) (hentry : g.entry ≤ b.count) (hflat : isFlat s)
    (hs : Stands true s ss) :
    ∃ inside n, Branch g b.current f.current other inside ∧ inside n ∧ .stmt s ∈ e.graph.itemsOf n := by
  obtain ⟨ps', hp', hf'⟩ := hpart.frozen rfl g ps hp hf
  obtain ⟨n, hn, hmem⟩ := hs.placed hflat hready
  exact ⟨_, n, (hwhole.frozen hp hf).branch hwhole.start hp (Ready.body ss hready) hp' hf' hstart hother
    hnot hlow hentry, hn, hpart.items n hmem⟩

theorem Part.branch_fork (hpart : Part false b e (b.fork test blocks) ((b.fork test blocks).body ss))
    (hwhole : b.Stage e) (hblocks : 2 ≤ blocks) (hp : b.Pending ps) (hf : Frozen g e ps)
    (hentry : g.entry ≤ b.count) (hflat : isFlat s) (hs : Stands true s ss) :
    ∃ inside n, Branch g b.current (b.count + 1) (b.count + 2) inside ∧ inside n ∧
      .stmt s ∈ e.graph.itemsOf n := by
  have h := hwhole.start
  refine hpart.branch hwhole (h.fork test blocks (by omega)).ready (fun x hx => ?_)
    (by omega) ?_ (fun n hn => ?_) hp hf hentry hflat hs
  · exact (h.enters_fork (by rw [current_fork]; omega) hx).1
  · simp only [Within, current_fork, count_fork]
    omega
  · simp only [Within, current_fork, count_fork] at hn
    omega

theorem Ready.tested_nil (h : b.Ready) (l : Loc) (test : Expr) (thenPart : List Stmt) :
    Tested b (b.stmt (.cond l test thenPart [])) test thenPart [] := by
  have hcurrent := h.made
  have hthen := Ready.body thenPart (h.fork test 2 (by omega)).ready
  have hturn := hthen.turn h (by omega)
  have hpart : Part false b _ (b.fork test 2) _ := .onlyBranch h hthen
  rw [Builder.stmt]
  refine
    { item := ?_
      moved := by rw [current_turn]; omega
      outEdges := hthen.outEdges_test h
      thenJoins := (hthen.reach.mono hpart.successors).trans hpart.after
      elseJoins := .start (by simp)
      thenBranch := fun g ps hp hf hentry s hflat hs =>
        hpart.branch_fork hturn (by omega) hp hf hentry hflat hs
      elseBranch := fun _ _ _ _ _ _ _ hs => by cases hs }
  rw [itemsOf_turn, hthen.itemsOf_test h]
  exact mem_append_right _ (mem_singleton_self _)

theorem Ready.tested_cons (h : b.Ready) (l : Loc) (test : Expr) (thenPart : List Stmt) (s : Stmt)
    (rest : List Stmt) :
    Tested b (b.stmt (.cond l test thenPart (s :: rest))) test thenPart (s :: rest) := by
  have hcurrent := h.made
  have hthen := Ready.body thenPart (h.fork test 3 (by omega)).ready
  have hcount := hthen.count
  rw [count_fork] at hcount
  have hturn := hthen.turn h (by omega)
  have helse := Ready.body (s :: rest) hturn.ready
  have hmeet := hthen.meet h helse
  have hfirst : Part false b _ (b.fork test 3) _ := .thenBranch h hthen helse
  have hsecond : Part false b _ _ _ := .elseBranch h hthen helse
  rw [Builder.stmt]
  refine
    { item := ?_
      moved := by rw [meet, current_moveTo]; omega
      outEdges := (helse.outEdges_meet (by omega) (by omega)).trans (hthen.outEdges_test h)
      thenJoins := (hthen.reach.mono hfirst.successors).trans hfirst.after
      elseJoins := (helse.reach.mono hsecond.successors).trans hsecond.after
      thenBranch := fun g ps hp hf hentry t hflat ht =>
        hfirst.branch_fork hmeet (by omega) hp hf hentry hflat ht
      elseBranch := fun g ps hp hf hentry t hflat ht => ?_ }
  · rw [helse.itemsOf_meet (by omega) (by omega), hthen.itemsOf_test h]
    exact mem_append_right _ (mem_singleton_self _)
  · refine hsecond.branch hmeet hturn.ready (fun x hx => ?_) (by omega) ?_ (fun n hn => ?_) hp hf
      hentry hflat ht
    · by_contra hne
      rw [current_turn, Graph.successors, turn, graph_moveTo, outEdges_edge_of_ne _ _ hne] at hx
      have hold := hthen.mem_successors_old (by rw [count_fork]; omega) (mem_successors_of_edge hx (by omega))
      exact hne (h.enters_fork (by omega) hold).1
    · simp only [Within, current_turn, count_turn]
      omega
    · simp only [Within, current_turn, count_turn] at hn
      omega

theorem Ready.tested (h : b.Ready) (l : Loc) (test : Expr) (thenPart elsePart : List Stmt) :
    Tested b (b.stmt (.cond l test thenPart elsePart)) test thenPart elsePart := by
  cases elsePart with
  | nil => exact h.tested_nil l test thenPart
  | cons s rest => exact h.tested_cons l test thenPart s rest

end Builder

end SecScan.Flow
