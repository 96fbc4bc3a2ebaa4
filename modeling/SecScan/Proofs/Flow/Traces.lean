import SecScan.Proofs.Flow.Nesting
import Mathlib.Computability.Language

/-!
The paths of a graph are the runs of its program. A statement has a language of traces, one word for
every way to decide its branches and loops (`traces`); the graph has the words spelled by its paths
(`spelled`). For structured programs the two are the same (`spelled_build`).

The proof is an equation for every stage of building (`Builder.Emits`). A path through a finished stage
leaves it by the block where filling went on (`Builder.Stage.paths_eq`), so the languages of two stages
in a row are multiplied. A loop gives an equation for the paths that start at its header, which has one
solution.
-/

namespace SecScan.Flow

open Syntax Computability List SecScan.Flow.Graph Builder

variable {g : Graph} {z a c : Nat} {t header : List Item} {p : List Nat} {l m : Option Label}

/-! ## Traces of a program -/

/-- What a `with` statement evaluates for one of its context managers. -/
def evaluated (w : WithItem) : List Item :=
  .expr w.context :: match w.vars with
    | some target => [.expr target]
    | none => []

/-- The runs of a loop: its header, then any number of times its body and the header again. -/
def looping (header : List Item) (body : Language Item) : Language Item := ({header} * body)∗ * {header}

mutual

/-- The traces of all complete runs of a statement, every branch taken or not and every loop repeated
any number of times. Defining a function runs nothing of it. -/
def traces : Stmt → Language Item
  | .funcDef .. => 1
  | .cond _ test thenPart elsePart => {[.expr test]} * (tracesAll thenPart + tracesAll elsePart)
  | .whileLoop _ test body _ => looping [.expr test] (tracesAll body)
  | .forLoop _ _ target iter body _ _ => looping [.expr target, .expr iter] (tracesAll body)
  | .withBlock _ _ items body _ => {items.flatMap evaluated} * tracesAll body
  | s@(.assign ..) => {[.stmt s]}
  | s@(.annAssign ..) => {[.stmt s]}
  | s@(.augAssign ..) => {[.stmt s]}
  | s@(.expr ..) => {[.stmt s]}
  | _ => 0

def tracesAll : List Stmt → Language Item
  | [] => 1
  | s :: rest => traces s * tracesAll rest

end

mutual

/-- Assignments, expressions, branches, loops without an `else` part, `with` statements and definitions
of functions, whose bodies may be anything. -/
def structured : Stmt → Bool
  | .assign .. | .annAssign .. | .augAssign .. | .expr .. | .funcDef .. => true
  | .cond _ _ thenPart elsePart => structuredAll thenPart && structuredAll elsePart
  | .whileLoop _ _ body orelse | .forLoop _ _ _ _ body orelse _ => structuredAll body && orelse.isEmpty
  | .withBlock _ _ _ body _ => structuredAll body
  | _ => false

def structuredAll : List Stmt → Bool
  | [] => true
  | s :: rest => structured s && structuredAll rest

end

/-! ## Words spelled by paths -/

/-- The path leads from a block to `z`; its word is spelled by the blocks before `z`. -/
inductive Leads (g : Graph) (z : Nat) : Nat → List Item → Prop where
  | stop : Leads g z z []
  | step {a c : Nat} {t : List Item} : c ∈ g.successors a → Leads g z c t → Leads g z a (g.itemsOf a ++ t)

def paths (g : Graph) (z a : Nat) : Language Item := {t | Leads g z a t}

theorem mem_paths : t ∈ paths g z a ↔ Leads g z a t := Iff.rfl

theorem mem_singleton_word {x : List Item} : t ∈ ({x} : Language Item) ↔ t = x := Iff.rfl

theorem word_mul_word (x y : List Item) : ({x} : Language Item) * {y} = {x ++ y} := by
  ext t
  simp [Language.mem_mul, mem_singleton_word, eq_comm]

theorem word_nil : ({[]} : Language Item) = 1 := rfl

theorem paths_self (h : g.outEdges z = []) : paths g z z = 1 := by
  ext t
  rw [mem_paths, Language.mem_one]
  constructor
  · intro ht
    cases ht with
    | stop => rfl
    | step hc => simp [successors, h] at hc
  · rintro rfl
    exact .stop

theorem paths_of_ne (h : a ≠ z) : paths g z a = {g.itemsOf a} * ((g.successors a).map (paths g z)).sum := by
  have hsum : ∀ (cs : List Nat) (t : List Item), t ∈ (cs.map (paths g z)).sum ↔ ∃ c ∈ cs, Leads g z c t := by
    intro cs t
    induction cs with
    | nil => simp [Language.notMem_zero]
    | cons c cs ih =>
      rw [map_cons, sum_cons, Language.mem_add, ih, exists_mem_cons_iff]
      rfl
  ext t
  simp only [mem_paths, Language.mem_mul, mem_singleton_word, hsum]
  constructor
  · intro ht
    cases ht with
    | stop => exact absurd rfl h
    | step hc ht => exact ⟨_, rfl, _, ⟨_, hc, ht⟩, rfl⟩
  · rintro ⟨_, rfl, u, ⟨c, hc, hu⟩, rfl⟩
    exact .step hc hu

/-- The words spelled by the paths from the entry to a block. -/
def spelled (g : Graph) (z : Nat) : Language Item :=
  {t | ∃ p, Trail g (z :: p) ∧ t = (z :: p).reverse.flatMap g.itemsOf}

theorem Leads.spelled (h : Leads g z a t)
    (hp : Trail g (a :: p)) : p.reverse.flatMap g.itemsOf ++ t ++ g.itemsOf z ∈ spelled g z := by
  induction h generalizing p with
  | stop => exact ⟨p, hp, by simp⟩
  | step hc _ ih => simpa using ih (hp.step hc)

theorem Trail.leads (hp : Trail g (a :: p))
    (h : Leads g z a t) : Leads g z g.entry (p.reverse.flatMap g.itemsOf ++ t) := by
  induction p generalizing a t with
  | nil => simpa [hp.eq_entry] using h
  | cons c p ih => simpa using ih (hp.tail (by simp)) (.step hp.edge h)

theorem spelled_eq (g : Graph) (z : Nat) : spelled g z = paths g z g.entry * {g.itemsOf z} := by
  ext t
  simp only [Language.mem_mul, mem_paths, mem_singleton_word]
  constructor
  · rintro ⟨p, hp, rfl⟩
    exact ⟨_, hp.leads .stop, _, rfl, by simp⟩
  · rintro ⟨u, hu, _, rfl, rfl⟩
    simpa using hu.spelled .start

namespace Builder

variable {b b' b'' : Builder} {g : Graph} {a z : Nat} {L M : Language Item}

/-! ## The language of a stage -/

/-- A path leaves a stage by the block where filling went on. -/
theorem Stage.paths_eq (h : b.Stage b') (hkeep : Keeps g b b') (ha : b.Within b' a)
    (hz : b.Within b' z → z = b'.current) :
    paths g z a = paths b'.graph b'.current a * paths g z b'.current := by
  ext t
  simp only [Language.mem_mul, mem_paths]
  constructor
  · intro ht
    induction ht with
    | stop =>
      obtain rfl := hz ha
      exact ⟨[], .stop, [], .stop, rfl⟩
    | @step a c t hc ht ih =>
      by_cases hne : a = b'.current
      · subst hne
        exact ⟨[], .stop, _, .step hc ht, rfl⟩
      · have hc' := hkeep.successors ha hne ▸ hc
        obtain ⟨u, hu, v, hv, rfl⟩ := ih (h.within_successor ha hc')
        refine ⟨_, .step hc' hu, v, hv, ?_⟩
        rw [hkeep.items a ha hne, append_assoc]
  · rintro ⟨u, hu, v, hv, rfl⟩
    induction hu with
    | stop => exact hv
    | @step a c u hc hu ih =>
      have hne : a ≠ b'.current := by
        rintro rfl
        simp [successors, h.out] at hc
      rw [← hkeep.items a ha hne, append_assoc]
      exact .step (hkeep.successors ha hne ▸ hc) (ih (h.within_successor ha hc))

/-- The words that a stage adds to those that lead to the block being filled. -/
def Emits (b b' : Builder) (L : Language Item) : Prop :=
  {b.graph.itemsOf b.current} * L = paths b'.graph b'.current b.current * {b'.graph.itemsOf b'.current}

theorem Stage.emits_trans (h : b.Stage b') (h' : b'.Stage b'') (hL : b.Emits b' L)
    (hM : b'.Emits b'' M) : b.Emits b'' (L * M) := by
  have hpart : Part true b b'' b b' := .first h h'
  have hleave := h.paths_eq hpart.keeps (.inl rfl) fun hz => by
    by_contra hne
    exact hpart.ended _ hz hne rfl
  calc {b.graph.itemsOf b.current} * (L * M)
      = paths b'.graph b'.current b.current * ({b'.graph.itemsOf b'.current} * M) := by rw [← mul_assoc, hL, mul_assoc]
    _ = paths b''.graph b''.current b.current * {b''.graph.itemsOf b''.current} := by rw [hM, hleave, mul_assoc]

section

variable (h : b.Stage b') (hL : b.Emits b' L) (hempty : b.graph.itemsOf b.current = [])
  (hkeep : Keeps g b b') (hitems : g.itemsOf b'.current = b'.graph.itemsOf b'.current)
include h hL hempty hkeep hitems

/-- A stage that began in an empty block and whose end leads to one block only. -/
theorem Stage.paths_sealed (hout : g.outEdges b'.current = [⟨b'.current, c, l⟩])
    (hz : ¬ b.Within b' z) : paths g z b.current = L * paths g z c := by
  have hne : b'.current ≠ z := fun heq => hz (heq ▸ h.within_current)
  have hend : paths g z b'.current = {b'.graph.itemsOf b'.current} * paths g z c := by
    rw [paths_of_ne hne, hitems]
    simp [successors, hout]
  rw [h.paths_eq hkeep (.inl rfl) fun hin => absurd hin hz, hend, ← mul_assoc, ← hL, hempty, word_nil, one_mul]

/-- The same for a stage whose end leads to the end of the paths. -/
theorem Stage.paths_branch (hout : g.outEdges b'.current = [⟨b'.current, z, l⟩])
    (hz : ¬ b.Within b' z) (hend : g.outEdges z = []) : paths g z b.current = L := by
  rw [h.paths_sealed hL hempty hkeep hitems hout hz, paths_self hend, mul_one]

end

/-! ## Plain stages -/

theorem Ready.emits_addAll (h : b.Ready) (is : List Item) : b.Emits (b.addAll is) {is} := by
  have hout := (h.addAll is).out
  rw [current_addAll] at hout
  rw [Emits, current_addAll, paths_self hout, one_mul, h.itemsOf_addAll, word_mul_word]

theorem Ready.emits_refl (h : b.Ready) : b.Emits b 1 := h.emits_addAll []

/-- The block being filled leads to an empty one, where filling goes on. -/
theorem Ready.emits_next (hnext : b'.Ready) (hitems : b'.graph.itemsOf b.current = b.graph.itemsOf b.current)
    (hempty : b'.graph.itemsOf b'.current = [])
    (hout : b'.graph.outEdges b.current = [⟨b.current, b'.current, l⟩]) : b.Emits b' 1 := by
  have hne : b.current ≠ b'.current := fun heq => by simp [heq, hnext.out] at hout
  rw [Emits, paths_of_ne hne, hempty, hitems]
  simp [successors, hout, paths_self hnext.out, word_nil]

theorem Ready.emits_advance (h : b.Ready) (l : Option Label) : b.Emits (b.advance l) 1 := by
  refine (h.advance l).ready.emits_next ?_ ?_ (l := l) ?_
  · exact itemsOf_fresh b _
  · exact (itemsOf_fresh b _).trans (h.itemsOf_new (Nat.lt_succ_self _))
  · exact outEdges_addEdge_of_nil _ l h.out

/-- A flat statement is emitted once, with or without an await. -/
theorem Ready.emits_flat (h : b.Ready) (s : Stmt) : b.Emits (b.flat s) {[.stmt s]} := by
  unfold Builder.flat
  split
  · have hemits : b.Emits (if b.currentEmpty then b else b.advance) 1 := by
      split
      · exact h.emits_refl
      · exact h.emits_advance none
    have hadd := h.alone.ready.addAll [.stmt s]
    have hnext := hadd.ready.advance (some .resume)
    have hall := h.alone.emits_trans (hadd.trans hnext) hemits
      (hadd.emits_trans hnext (h.alone.ready.emits_addAll [.stmt s]) (hadd.ready.emits_advance (some .resume)))
    rwa [mul_one, one_mul] at hall
  · exact h.emits_addAll [.stmt s]

theorem Stage.emits_function (h : b.Ready) {name : String} {owner : Stmt} {args : Arguments}
    (hbody : (b.enterFunction name owner args false).Stage b') : b.Emits (b'.leaveFunction b) 1 := by
  refine (hbody.leaveFunction h).ready.emits_next ?_ ?_
    (outEdges_addEdge_of_nil _ (some .next) (hbody.outEdges_function h))
  · exact (itemsOf_addBlock b'.graph rfl _).trans (hbody.itemsOf_function h)
  · exact (itemsOf_addBlock b'.graph rfl _).trans (hbody.sound.itemsOf_new (Nat.lt_succ_self _))

/-! ## Branches -/

section branches

variable {test : Expr} {blocks : Nat}

/-- The paths from a test are those of its two branches. -/
theorem Ready.emits_test (hnext : b'.Ready)
    (hitems : b'.graph.itemsOf b.current = b.graph.itemsOf b.current ++ [.expr test])
    (hempty : b'.graph.itemsOf b'.current = []) {d : Nat}
    (hout : b'.graph.outEdges b.current = [⟨b.current, c, l⟩, ⟨b.current, d, m⟩])
    (hL : paths b'.graph b'.current c = L) (hM : paths b'.graph b'.current d = M) :
    b.Emits b' ({[.expr test]} * (L + M)) := by
  have hne : b.current ≠ b'.current := fun heq => by simp [heq, hnext.out] at hout
  rw [Emits, paths_of_ne hne, hempty, hitems, word_nil, mul_one, ← word_mul_word, mul_assoc]
  simp [successors, hout, hL, hM]

theorem Ready.emits_branch (h : b.Ready) (hthen : (b.fork test 2).Stage b') (hL : (b.fork test 2).Emits b' L) :
    b.Emits (b'.turn b 2) ({[.expr test]} * (L + 1)) := by
  have hcurrent := h.made
  have hfilled := hthen.current_fork
  have hturn := hthen.turn h (by omega)
  have hpart : Part true b _ (b.fork test 2) b' := .onlyBranch h hthen
  have hbranch := hthen.paths_branch hL (h.itemsOf_fork _ _) hpart.keeps rfl (hthen.ready.outEdges_turn (by omega)) (by
      simp only [Within, current_fork, count_fork]
      omega) hturn.out
  refine hturn.ready.emits_test ?_ ?_ (hthen.outEdges_test h) hbranch (paths_self hturn.out)
  · rw [itemsOf_turn, hthen.itemsOf_test h]
  · rw [itemsOf_turn, current_turn, hthen.itemsOf_pending h (by omega) (by omega)]

theorem Ready.emits_branches (h : b.Ready) (hthen : (b.fork test 3).Stage b') (hL : (b.fork test 3).Emits b' L)
    (helse : (b'.turn b 3).Stage b'')
    (hM : (b'.turn b 3).Emits b'' M) :
    b.Emits (b''.meet b) ({[.expr test]} * (L + M)) := by
  have hcurrent := h.made
  have hfilled := hthen.current_fork
  have hend := hthen.sound.le _ hthen.sound.current
  have hcount := hthen.count
  rw [count_fork] at hcount
  have hmeet := hthen.meet h helse
  have hfirst : Part true b _ (b.fork test 3) b' := .thenBranch h hthen helse
  have hsecond : Part true b _ (b'.turn b 3) b'' := .elseBranch h hthen helse
  have hL' := hthen.paths_branch hL (h.itemsOf_fork _ _) hfirst.keeps (helse.itemsOf_meet hend (by omega))
    ((helse.outEdges_meet hend (by omega)).trans (hthen.ready.outEdges_turn (by omega))) (by
      simp only [Within, current_fork, count_fork]
      omega) hmeet.out
  have hother : b'.graph.itemsOf (b.count + 2) = [] := hthen.itemsOf_pending h (by omega) (by omega)
  have hM' := helse.paths_branch hM hother hsecond.keeps rfl (outEdges_edge_of_nil _ _ helse.out) (by
      simp only [Within, current_turn, count_turn]
      omega) hmeet.out
  refine hmeet.ready.emits_test ?_ ?_ ((helse.outEdges_meet (by omega) (by omega)).trans
    (hthen.outEdges_test h)) hL' hM'
  · rw [helse.itemsOf_meet (by omega) (by omega), hthen.itemsOf_test h]
  · rw [meet, current_moveTo, ← meet, helse.itemsOf_meet (by omega) (by omega),
      hthen.itemsOf_pending h (by omega) (by omega)]

end branches

/-! ## Loops -/

/-- The paths from the header of a loop are the only solution of an equation. -/
theorem paths_header (hne : header ≠ []) (haz : a ≠ z) (hitems : g.itemsOf a = header) (hend : g.outEdges z = [])
    (hout : g.outEdges a = [⟨a, c, l⟩, ⟨a, z, m⟩]) (hbody : paths g z c = L * paths g z a) :
    paths g z a = looping header L := by
  refine (Language.self_eq_mul_add_iff ?_).mp ?_
  · simp [Language.mem_mul, mem_singleton_word, hne]
  · conv_lhs => rw [paths_of_ne haz, hitems]
    simp only [successors, hout, map_cons, map_nil, sum_cons, sum_nil,
      add_zero, hbody, paths_self hend, mul_add, mul_one, mul_assoc]

theorem Ready.emits_loop (h : b.Ready) (hne : header ≠ []) (enter leave : Label)
    (hbody : (b.openLoop header enter leave).Stage b')
    (hL : (b.openLoop header enter leave).Emits b' L) :
    b.Emits (b'.closeLoop b) (looping header L) := by
  have hcurrent := h.made
  have hclose := h.closeLoop hbody
  have hpart := Part.loop h hbody
  have hend := hbody.current
  rw [current_openLoop, count_openLoop] at hend
  -- the blocks around the body are as `openLoop` left them
  have hout : ∀ n, n ≤ b.count + 3 → n ≠ b.count + 2 → (b'.edge b'.current (b.count + 1)).graph.outEdges n =
        (b.openLoop header enter leave).graph.outEdges n := fun n hn hne => by
    rw [outEdges_edge_of_ne _ _ (by omega),
      hbody.outEdges n (by rw [count_openLoop]; exact hn) (by rw [current_openLoop]; exact hne)]
  have hitems : ∀ n, n ≤ b.count + 3 → n ≠ b.count + 2 → (b'.edge b'.current (b.count + 1)).graph.itemsOf n =
        (b.openLoop header enter leave).graph.itemsOf n := fun n hn hne =>
    hbody.items n (by rw [count_openLoop]; exact hn) (by rw [current_openLoop]; exact hne)
  have hround := hbody.paths_sealed (z := b.count + 3) hL
    (by rw [current_openLoop, itemsOf_openLoop_of_ne _ _ _ _ (by omega), h.itemsOf_new (by omega)])
    hpart.keeps rfl (outEdges_edge_of_nil _ _ hbody.out)
    (by rw [Within, current_openLoop, count_openLoop]; omega)
  rw [current_openLoop] at hround
  have hheader := paths_header hne (a := b.count + 1) (z := b.count + 3) (by omega)
    ((hitems _ (by omega) (by omega)).trans (h.itemsOf_header header enter leave)) hclose.out
    ((hout _ (by omega) (by omega)).trans (h.outEdges_header header enter leave)) hround
  have hentry : (b'.edge b'.current (b.count + 1)).graph.successors b.current = [b.count + 1] := by
    rw [successors, hout _ (by omega) (by omega), h.outEdges_openLoop]
    rfl
  have hempty : (b'.edge b'.current (b.count + 1)).graph.itemsOf (b.count + 3) = [] := by
    rw [hitems _ (by omega) (by omega), itemsOf_openLoop_of_ne _ _ _ _ (by omega), h.itemsOf_new (by omega)]
  rw [Emits, Builder.closeLoop, graph_moveTo, current_moveTo, paths_of_ne (by omega), hentry, hempty,
    hitems _ (by omega) (by omega), itemsOf_openLoop_of_ne _ _ _ _ (by omega), word_nil, mul_one]
  simp only [map_cons, map_nil, sum_cons, sum_nil, add_zero]
  rw [← hheader]

/-! ## Programs -/

theorem withItems_eq (items : List WithItem) : withItems items = items.flatMap evaluated := by
  refine flatMap_congr fun w _ => ?_
  cases h : w.vars <;> simp [evaluated, h]

mutual

theorem Ready.emits_stmt : ∀ (s : Stmt) {b : Builder}, b.Ready → structured s → b.Emits (b.stmt s) (traces s)
  | .funcDef _ _ name args bdy _ _ _, b, h, _ => (Ready.body bdy (h.enterFunction args).ready).emits_function h
  | .cond _ test thenPart [], b, h, hs => by
    obtain ⟨hthen, -⟩ := Bool.and_eq_true_iff.mp hs
    have hfork := h.fork test 2 (by omega)
    exact h.emits_branch (Ready.body thenPart hfork.ready) (Ready.emits_body thenPart hfork.ready hthen)
  | .cond _ test thenPart (s :: rest), b, h, hs => by
    obtain ⟨hthen, helse⟩ := Bool.and_eq_true_iff.mp hs
    have hfork := h.fork test 3 (by omega)
    have hfilled := Ready.body thenPart hfork.ready
    have hturn := hfilled.turn h (by omega)
    exact h.emits_branches hfilled (Ready.emits_body thenPart hfork.ready hthen)
      (Ready.body (s :: rest) hturn.ready) (Ready.emits_body (s :: rest) hturn.ready helse)
  | .whileLoop _ test bdy _, b, h, hs => by
    have hopen := h.openLoop [.expr test] .true .false
    exact h.emits_loop (by simp) _ _ (Ready.body bdy hopen.ready)
      (Ready.emits_body bdy hopen.ready (Bool.and_eq_true_iff.mp hs).1)
  | .forLoop _ isAsync target iter bdy _ _, b, h, hs => by
    have hopen := h.openLoop [.expr target, .expr iter]
      (if isAsync then .asyncNext else .next) (if isAsync then .asyncStop else .stop)
    exact h.emits_loop (by simp) _ _ (Ready.body bdy hopen.ready)
      (Ready.emits_body bdy hopen.ready (Bool.and_eq_true_iff.mp hs).1)
  | .withBlock _ isAsync items bdy _, b, h, hs => by
    have hitems := h.addAll (withItems items)
    have hemits : b.Emits (b.addAll (withItems items)) {items.flatMap evaluated} :=
      withItems_eq items ▸ h.emits_addAll (withItems items)
    have hbodyAt := fun {b : Builder} (h : b.Ready) => Ready.emits_body bdy h hs
    cases isAsync with
    | true =>
      have hin := hitems.ready.advance (some .asyncEnter)
      have hbody := Ready.body bdy hin.ready
      have hout := hbody.ready.advance (some .asyncExit)
      have hrest := hin.emits_trans (hbody.trans hout) (hitems.ready.emits_advance _)
        (hbody.emits_trans hout (hbodyAt hin.ready) (hbody.ready.emits_advance _))
      rw [one_mul, mul_one] at hrest
      exact hitems.emits_trans (hin.trans (hbody.trans hout)) hemits hrest
    | false => exact hitems.emits_trans (Ready.body bdy hitems.ready) hemits (hbodyAt hitems.ready)
  | .assign .., b, h, _ => h.emits_flat _
  | .augAssign .., b, h, _ => h.emits_flat _
  | .annAssign .., b, h, _ => h.emits_flat _
  | .expr .., b, h, _ => h.emits_flat _

theorem Ready.emits_body : ∀ (ss : List Stmt) {b : Builder}, b.Ready → structuredAll ss →
    b.Emits (b.body ss) (tracesAll ss)
  | [], _, h, _ => h.emits_refl
  | s :: ss, _, h, hs => by
    obtain ⟨hfirst, hrest⟩ := Bool.and_eq_true_iff.mp hs
    have hstage := Ready.stmt s h
    exact hstage.emits_trans (Ready.body ss hstage.ready) (Ready.emits_stmt s h hfirst)
      (Ready.emits_body ss hstage.ready hrest)

end

end Builder

/-- The words spelled by the paths of a structured program's graph, from its entry to the block where
building ended, are the traces of the program. -/
theorem spelled_build (count : Nat) (name : String) (m : Module) (h : structuredAll m.body) :
    spelled (Graph.buildFrom count name (.module m)).1
      ((start count name (.module m)).root (.module m)).current = tracesAll m.body := by
  have hstart := ready_start count name (.module m)
  have hbody := Builder.Ready.body m.body hstart
  have hentry : ((start count name (.module m)).body m.body).graph.entry =
      (start count name (.module m)).current := hbody.entry
  have hempty : (start count name (.module m)).graph.itemsOf
      (start count name (.module m)).current = [] := by
    simp [start, Graph.itemsOf, Graph.block?, fresh, newBlock, Graph.addBlock, moveTo]
  have hemits := hstart.emits_body m.body h
  rw [Builder.Emits, hempty, word_nil, one_mul] at hemits
  rw [hemits, ← hentry]
  exact spelled_eq _ _

def var (line : Nat) (x : String) (ctx : Context) : Expr := .name ⟨line, 0, line, 1⟩ x ctx

def awaiting : Stmt := .assign ⟨1, 0, 1, 11⟩ [var 1 "x" .store] (.await ⟨1, 4, 1, 11⟩ (var 1 "f" .load)) none

def storing : Stmt := .assign ⟨5, 8, 5, 13⟩ [var 5 "x" .store] (var 5 "h" .load) none

/-- The definition of a function and `with f as h: x = h`. -/
def polled : List Stmt := [ .funcDef ⟨3, 4, 3, 21⟩ false "g" (.mk [] [] none [] [] none [])
    [.ret ⟨3, 13, 3, 21⟩ (some (var 3 "x" .load))] [] none none,
  .withBlock ⟨4, 4, 5, 13⟩ false [⟨var 4 "f" .load, some (var 4 "h" .store)⟩] [storing] none]

/-- `x = await f`, then a loop `while x:` -/
def polling : Module where
  body := [awaiting, .whileLoop ⟨2, 0, 5, 13⟩ (var 2 "x" .load) polled []]

/-- The loop is entered once on one of the paths. -/
theorem polling_once : structuredAll polling.body ∧
    [.stmt awaiting, .expr (var 2 "x" .load), .expr (var 4 "f" .load), .expr (var 4 "h" .store),
      .stmt storing, .expr (var 2 "x" .load)] ∈
    spelled (Graph.build "m" (.module polling))
      ((start 0 "m" (.module polling)).root (.module polling)).current := by
  refine ⟨by decide, ?_⟩
  rw [Graph.build, spelled_build 0 "m" polling (by decide)]
  let head : List Item := [.expr (var 2 "x" .load)]
  let round : List Item := [.expr (var 4 "f" .load), .expr (var 4 "h" .store), .stmt storing]
  have hround : round ∈ tracesAll polled := by
    simp [tracesAll, traces, polled, storing, evaluated, Language.mem_mul, mem_singleton_word, round]
  have hloop : head ++ round ++ head ∈ looping head (tracesAll polled) :=
    Language.append_mem_mul (Language.mem_kstar.mpr ⟨[head ++ round], by simp, by
      simpa using Language.append_mem_mul (show head ∈ {head} from rfl) hround⟩) rfl
  show [.stmt awaiting] ++ (head ++ round ++ head ++ []) ∈
    {[Item.stmt awaiting]} * (looping head (tracesAll polled) * 1)
  exact Language.append_mem_mul rfl (Language.append_mem_mul hloop rfl)

end SecScan.Flow
