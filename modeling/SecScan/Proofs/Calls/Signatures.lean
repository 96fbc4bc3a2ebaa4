import Mathlib.Algebra.GroupWithZero.Nat
import Mathlib.Data.String.Basic
import SecScan.Calls.Summary
import SecScan.Proofs.Flow.Contents

/-!
Signatures are made by name. Every name of a function that is visited has one signature, unless it is that of the whole
graph; its calls and branches are those of all the functions of that name, each with its own body only
(`signatures_by_name`). So functions that share a name share a signature (`methods_share_signature`), and the
complexity of one that does not is its cyclomatic number (`complexity_cyclomatic`).
-/

namespace SecScan.Flow

open Syntax Calls List SecScan.Flow.Graph

namespace Mark

def called : Mark → List String
  | .item i => i.node.walk.filterMap calledName?
  | .fork => []

def isFork : Mark → Bool
  | .item _ => false
  | .fork => true

end Mark

namespace Definition

/-- What a function calls in its plain parameters and its own body. -/
def called (d : Definition) : List String := d.own.flatMap Mark.called

/-- How often ways part in the own body of a function. -/
def branches (d : Definition) : Nat := d.own.countP Mark.isFork

/-- The hints of a function can be written out. -/
structure Hinted (d : Definition) : Prop where
  inputs : ∃ inputs, inputsOf d.args = .ok inputs
  output : ∃ output, hintText d.returns = .ok output

end Definition

/-! ## Marks by scope -/

theorem mem_called {g : Graph} {n f : String} :
    f ∈ ((g.blocks.filter (·.scope.name == n)).flatMap fun b =>
      b.items.flatMap fun i => i.node.walk.filterMap calledName?) ↔
      ∃ m, (n, m) ∈ g.marks ∧ f ∈ m.called := by
  simp only [mem_flatMap, mem_filter, beq_iff_eq, marks, mem_map, Prod.mk.injEq]
  constructor
  · rintro ⟨x, ⟨hx, hscope⟩, i, hi, hf⟩
    exact ⟨.item i, ⟨x, hx, .item i, mem_append_left _ (mem_map_of_mem hi), hscope, rfl⟩, hf⟩
  · rintro ⟨m, ⟨x, hx, m', hm, hscope, rfl⟩, hf⟩
    rcases mem_append.mp hm with hm | hm
    · obtain ⟨i, hi, rfl⟩ := mem_map.mp hm
      exact ⟨x, ⟨hx, hscope⟩, i, hi, hf⟩
    · obtain rfl : m' = .fork := by
        split at hm
        · simpa using hm
        · simp at hm
      exact absurd hf not_mem_nil

theorem length_branching (g : Graph) (n : String) :
    ((g.blocks.filter (·.scope.name == n)).filter fun b => 1 < g.edges.countP (·.source == b.id)).length =
      g.marks.countP fun p => p.1 == n && p.2.isFork := by
  have hforks : ∀ x : Block, g.forks x.id = decide (1 < g.edges.countP (·.source == x.id)) := by
    intro x
    rw [forks, outEdges, countP_eq_length_filter]
  have hblock : ∀ x : Block, (g.marksOf x).countP Mark.isFork = if g.forks x.id then 1 else 0 := by
    intro x
    have hitems : (x.items.map Mark.item).countP Mark.isFork = 0 := by simp [countP_eq_zero, Mark.isFork]
    rw [marksOf, countP_append, hitems, Nat.zero_add]
    split <;> rfl
  rw [marks, filter_filter]
  induction g.blocks with
  | nil => rfl
  | cons x xs ih =>
    rw [flatMap_cons, countP_append, ← ih, countP_map, filter_cons, ← hforks]
    by_cases hscope : x.scope.name = n
    · simp only [Function.comp_def, hscope, beq_self_eq_true, Bool.true_and, Bool.and_true, hblock]
      split <;> simp [Nat.add_comm]
    · simp [Function.comp_def, hscope]

namespace Visited

variable (v : Visited) {scope n : String}

theorem mem_marks (hn : n ≠ scope) {m : Mark} :
    (n, m) ∈ v.marks scope ↔ ∃ d ∈ v.definitions, d.name = n ∧ m ∈ d.own := by
  simp only [marks, mem_append, mem_map, mem_flatMap, Prod.mk.injEq, Ne.symm hn, false_and, and_false,
    exists_false, false_or]
  constructor
  · rintro ⟨d, hd, _, hm, hname, rfl⟩
    exact ⟨d, hd, hname, hm⟩
  · rintro ⟨d, hd, hname, hm⟩
    exact ⟨d, hd, m, hm, hname, rfl⟩

theorem countP_marks (hn : n ≠ scope) : (v.marks scope).countP (fun p => p.1 == n && p.2.isFork) =
    ((v.definitions.filter (·.name == n)).map Definition.branches).sum := by
  have hown : (v.own.map (scope, ·)).countP (fun p => p.1 == n && p.2.isFork) = 0 := by
    simp [countP_eq_zero, Ne.symm hn]
  rw [marks, countP_append, hown, Nat.zero_add, countP_flatMap]
  induction v.definitions with
  | nil => rfl
  | cons d ds ih =>
    rw [map_cons, sum_cons, ih, Function.comp_apply, countP_map]
    by_cases hd : d.name = n
    · simp [hd, Function.comp_def, Definition.branches]
    · simp [hd, Function.comp_def]

/-- A name stands for the last of the functions that have it. -/
theorem lookup_named {d : Definition} (hd : d ∈ v.definitions) (scopes : List (String × Node)) :
    ∃ e ∈ v.definitions, e.name = d.name ∧ (v.named scopes).lookup d.name = some (.stmt e.stmt) := by
  rw [named]
  generalize v.definitions = ds at hd
  induction ds using reverseRecOn with
  | nil => exact absurd hd not_mem_nil
  | append_singleton ds e ih =>
    rw [foldl_concat, lookup_putField]
    by_cases he : d.name = e.name
    · exact ⟨e, by simp, he.symm, if_pos he⟩
    · have hds : d ∈ ds := by
        rcases mem_append.mp hd with hd | hd
        · exact hd
        · exact absurd (congrArg _ (mem_singleton.mp hd)) he
      obtain ⟨e', he', hname, hlookup⟩ := ih hds
      exact ⟨e', mem_append_left _ he', hname, by rw [if_neg he, hlookup]⟩

end Visited

/-! ## Decisions -/

mutual

/-- How many branches and loops a statement has in its own scope. The last part of a loop does not count. -/
def decisions : Stmt → Nat
  | .cond _ _ thenPart elsePart => 1 + decisionsAll thenPart + decisionsAll elsePart
  | .whileLoop _ _ body _ | .forLoop _ _ _ _ body _ _ => 1 + decisionsAll body
  | .classDef _ _ _ _ body _ | .withBlock _ _ _ body _ => decisionsAll body
  | .matchOn _ _ cases => decisionsCases cases
  | .tryBlock _ _ body handlers orelse final =>
    decisionsAll body + decisionsHandlers handlers + decisionsAll orelse + decisionsAll final
  | _ => 0

def decisionsAll : List Stmt → Nat
  | [] => 0
  | s :: rest => decisions s + decisionsAll rest

def decisionsHandlers : List Handler → Nat
  | [] => 0
  | .mk _ _ _ body :: rest => decisionsAll body + decisionsHandlers rest

def decisionsCases : List MatchCase → Nat
  | [] => 0
  | .mk _ _ body :: rest => decisionsAll body + decisionsCases rest

end

def Visited.forks (v : Visited) : Nat := v.own.countP Mark.isFork

@[simp] theorem forks_append (v w : Visited) : (v ++ w).forks = v.forks + w.forks := countP_append

@[simp] theorem forks_items (is : List Item) : (Visited.items is).forks = 0 := by
  simp [Visited.forks, Visited.items, countP_eq_zero, Mark.isFork]

@[simp] theorem forks_fork : Visited.fork.forks = 1 := rfl

mutual

theorem forks_visited (s : Stmt) : (visited s).forks = decisions s := by
  cases s with
  | cond l test thenPart elsePart =>
    simp [visited, decisions, forks_visitedAll thenPart, forks_visitedAll elsePart, Nat.add_comm]
  | whileLoop l test body orelse => simp [visited, decisions, forks_visitedAll body]
  | forLoop l isAsync target iter body orelse note => simp [visited, decisions, forks_visitedAll body]
  | classDef l name bases keywords body decorators => simp [visited, decisions, forks_visitedAll body]
  | withBlock l isAsync items body note => simp [visited, decisions, forks_visitedAll body]
  | matchOn l subject cases => simp [visited, decisions, forks_visitedCases cases]
  | tryBlock l star body handlers orelse final =>
    simp [visited, decisions, forks_visitedAll body, forks_visitedHandlers handlers, forks_visitedAll orelse,
      forks_visitedAll final, Nat.add_assoc]
  | _ => rfl

theorem forks_visitedAll : ∀ ss, (visitedAll ss).forks = decisionsAll ss
  | [] => rfl
  | s :: rest => by simp [visitedAll, decisionsAll, forks_visited s, forks_visitedAll rest]

theorem forks_visitedHandlers : ∀ hs, (visitedHandlers hs).forks = decisionsHandlers hs
  | [] => rfl
  | .mk _ _ _ body :: rest => by
    simp [visitedHandlers, decisionsHandlers, forks_visitedAll body, forks_visitedHandlers rest]

theorem forks_visitedCases : ∀ cs, (visitedCases cs).forks = decisionsCases cs
  | [] => rfl
  | .mk _ _ body :: rest => by simp [visitedCases, decisionsCases, forks_visitedAll body, forks_visitedCases rest]

end

theorem branches_eq (d : Definition) : d.branches = decisionsAll d.body := by
  rw [← forks_visitedAll]
  simp [Definition.branches, Definition.own, Visited.forks, countP_eq_zero, Mark.isFork]

end SecScan.Flow

namespace SecScan.Calls

open Syntax SecScan.Flow List SecScan.Flow.Graph

theorem mem_sortedSet {l : List String} {f : String} : f ∈ sortedSet l ↔ f ∈ l := by simp [sortedSet]

theorem ofFunction_ok (flow : Flow.Graph) {d : Definition} (hd : d.Hinted) (blocks : List Block) :
    ∃ s, Signature.ofFunction flow d.name d.args d.body d.returns blocks = .ok s := by
  obtain ⟨⟨inputs, hinputs⟩, output, houtput⟩ := hd
  exact ⟨_, bind_eq_ok.mpr ⟨inputs, hinputs, bind_eq_ok.mpr ⟨output, houtput, rfl⟩⟩⟩

theorem ofFunction_eq_ok {flow : Flow.Graph} {name : String} {args : Arguments} {body : List Stmt}
    {returns : Option Expr} {blocks : List Block} {s : Signature}
    (h : Signature.ofFunction flow name args body returns blocks = .ok s) :
    s.name = name ∧ inputsOf args = .ok s.inputs ∧
      s.calls = sortedSet (blocks.flatMap fun b => b.items.flatMap fun i => i.node.walk.filterMap calledName?) ∧
      s.complexity = (blocks.filter fun b => 1 < flow.edges.countP (·.source == b.id)).length + 1 := by
  obtain ⟨inputs, hinputs, h⟩ := bind_eq_ok.mp h
  obtain ⟨output, -, h⟩ := bind_eq_ok.mp h
  cases h
  exact ⟨rfl, hinputs, rfl, rfl⟩

theorem functions_of_gains {count : Nat} {name : String} {root : Node} {g : Flow.Graph} {v : Visited}
    (hgains : (Builder.start count name root).graph.Gains name g v) :
    ((functions g).map (·.1)).Nodup ∧
      (∀ n, n ∈ (functions g).map (·.1) ↔ n ≠ name ∧ ∃ d ∈ v.definitions, d.name = n) ∧
      ∀ f ∈ functions g, ∃ d ∈ v.definitions, f = (d.name, d.args, d.body, d.returns) := by
  have hnames : ∀ n, n ∈ (scopeNames g).filter (· != g.name) ↔ n ≠ name ∧ ∃ d ∈ v.definitions, d.name = n := by
    intro n
    have hname : g.name = name := hgains.name
    have hscope : n ∈ g.scopeTags ↔ n ∈ [name] ∨ _ := hgains.scopeTags n
    rw [scopeTags, tags, map_map, mem_singleton] at hscope
    rw [mem_filter, scopeNames, mem_eraseDups, hname, bne_iff_ne]
    constructor
    · rintro ⟨hn, hne⟩
      exact ⟨hne, (hscope.mp hn).resolve_left hne⟩
    · rintro ⟨hne, hd⟩
      exact ⟨hscope.mpr (.inr hd), hne⟩
  have hlookup : ∀ n ∈ (scopeNames g).filter (· != g.name), ∃ d ∈ v.definitions,
      d.name = n ∧ g.scopes.lookup n = some (.stmt d.stmt) := by
    intro n hn
    obtain ⟨-, d, hd, rfl⟩ := (hnames n).mp hn
    rw [hgains.scopes]
    exact Visited.lookup_named _ hd _
  have hsame : (functions g).map (·.1) = (scopeNames g).filter (· != g.name) := by
    rw [functions, map_filterMap]
    refine (filterMap_congr fun n hn => ?_).trans filterMap_some
    obtain ⟨d, -, -, hd⟩ := hlookup n hn
    rw [hd]
    rfl
  rw [hsame]
  refine ⟨(nodup_eraseDups _).filter _, hnames, fun f hf => ?_⟩
  obtain ⟨n, hn, hf⟩ := mem_filterMap.mp hf
  obtain ⟨d, hd, rfl, hlookup⟩ := hlookup n hn
  rw [hlookup] at hf
  exact ⟨d, hd, (Option.some.inj hf).symm⟩

section

variable {count : Nat} {name : String} {root : Node} {g : Flow.Graph} {v : Visited} {sigs : List Signature}
  (hgains : (Builder.start count name root).graph.Gains name g v)

include hgains

theorem signatures_of_gains (hints : ∀ d ∈ v.definitions, d.Hinted) :
    ∃ sigs, signatures g = .ok sigs ∧ (sigs.map (·.name)).Nodup ∧
      ∀ n, n ∈ sigs.map (·.name) ↔ n ≠ name ∧ ∃ d ∈ v.definitions, d.name = n := by
  obtain ⟨hnodup, hnames, hfunctions⟩ := functions_of_gains hgains
  obtain ⟨sigs, hsigs⟩ : ∃ sigs, signatures g = .ok sigs := by
    refine mapM_ok fun f hf => ?_
    obtain ⟨d, hd, rfl⟩ := hfunctions f hf
    exact ofFunction_ok g (hints d hd) _
  have hsame : sigs.map (·.name) = (functions g).map (·.1) := by
    have hall := mapM_eq_ok.mp hsigs
    generalize functions g = fs at hall
    clear * - hall
    induction hall with
    | nil => rfl
    | cons h _ ih => rw [map_cons, map_cons, ih, (ofFunction_eq_ok h).1]
  exact ⟨sigs, hsigs, hsame ▸ hnodup, hsame ▸ hnames⟩

theorem made_of_gains (hsigs : signatures g = .ok sigs) {s : Signature} (hs : s ∈ sigs) : s.name ≠ name ∧
    ∃ d ∈ v.definitions, d.name = s.name ∧
      Signature.ofFunction g d.name d.args d.body d.returns (g.blocks.filter (·.scope.name == d.name)) = .ok s := by
  obtain ⟨-, hnames, hfunctions⟩ := functions_of_gains hgains
  obtain ⟨f, hf, h⟩ := exists_of_mem_mapM hsigs hs
  have hne : f.1 ≠ name := ((hnames f.1).mp (mem_map_of_mem hf)).1
  obtain ⟨d, hd, rfl⟩ := hfunctions f hf
  have hname : s.name = d.name := (ofFunction_eq_ok h).1
  exact ⟨hname ▸ hne, d, hd, hname.symm, h⟩

theorem complexity_of_gains (hsigs : signatures g = .ok sigs) {s : Signature} (hs : s ∈ sigs) :
    s.complexity = 1 + ((v.definitions.filter (·.name == s.name)).map Definition.branches).sum := by
  obtain ⟨hne, d, -, hname, h⟩ := made_of_gains hgains hsigs hs
  obtain ⟨-, -, -, hcomplexity⟩ := ofFunction_eq_ok h
  have hmarks : g.marks.Perm (v.marks name) := hgains.marks
  rw [hcomplexity, hname, length_branching, hmarks.countP_eq, Visited.countP_marks _ hne, Nat.add_comm]

end

/-- Every name of a function that is not that of the graph has one signature. It is made for one of the functions of
that name, with the calls and branches of them all. -/
theorem signatures_by_name (count : Nat) (name : String) (m : Module)
    (hints : ∀ d ∈ (visitedAll m.body).definitions, d.Hinted) :
    ∃ sigs, signatures (Flow.Graph.buildFrom count name (.module m)).1 = .ok sigs ∧ (sigs.map (·.name)).Nodup ∧
      (∀ n, n ∈ sigs.map (·.name) ↔ n ≠ name ∧ ∃ d ∈ (visitedAll m.body).definitions, d.name = n) ∧
      ∀ s ∈ sigs, (∃ d ∈ (visitedAll m.body).definitions, d.name = s.name ∧ inputsOf d.args = .ok s.inputs) ∧
        (∀ f, f ∈ s.calls ↔ ∃ d ∈ (visitedAll m.body).definitions, d.name = s.name ∧ f ∈ d.called) ∧
        s.complexity =
          1 + (((visitedAll m.body).definitions.filter (·.name == s.name)).map Definition.branches).sum := by
  have hgains := gains_build count name m
  obtain ⟨sigs, hsigs, hnodup, hnames⟩ := signatures_of_gains hgains hints
  refine ⟨sigs, hsigs, hnodup, hnames, fun s hs => ?_⟩
  obtain ⟨hne, d, hd, hname, h⟩ := made_of_gains hgains hsigs hs
  obtain ⟨-, hinputs, hcalls, -⟩ := ofFunction_eq_ok h
  refine ⟨⟨d, hd, hname, hinputs⟩, fun f => ?_, complexity_of_gains hgains hsigs hs⟩
  have hmarks : (Flow.Graph.buildFrom count name (.module m)).1.marks.Perm ((visitedAll m.body).marks name) :=
    hgains.marks
  rw [hcalls, hname, mem_sortedSet, mem_called]
  simp only [hmarks.mem_iff, Visited.mem_marks _ hne, Definition.called, List.mem_flatMap]
  exact ⟨fun ⟨m, ⟨d, hd, hname, hm⟩, hf⟩ => ⟨d, hd, hname, m, hm, hf⟩,
    fun ⟨d, hd, hname, m, hm, hf⟩ => ⟨m, ⟨d, hd, hname, hm⟩, hf⟩⟩

/-- `class A: def run(self): a()` and `class B: def run(self): b()` -/
def runners : Module where
  body :=
    [.classDef ⟨1, 0, 3, 11⟩ "A" [] []
      [.funcDef ⟨2, 4, 3, 11⟩ false "run" (.mk [] [.mk ⟨2, 12, 2, 16⟩ "self" none none] none [] [] none [])
        [.expr ⟨3, 8, 3, 11⟩ (.call ⟨3, 8, 3, 11⟩ (.name ⟨3, 8, 3, 9⟩ "a" .load) [] [])] [] none none] [],
     .classDef ⟨4, 0, 6, 11⟩ "B" [] []
      [.funcDef ⟨5, 4, 6, 11⟩ false "run" (.mk [] [.mk ⟨5, 12, 5, 16⟩ "self" none none] none [] [] none [])
        [.expr ⟨6, 8, 6, 11⟩ (.call ⟨6, 8, 6, 11⟩ (.name ⟨6, 8, 6, 9⟩ "b" .load) [] [])] [] none none] []]

theorem runners_signed : ∃ sigs, signatures (Flow.Graph.build "m" (.module runners)) = .ok sigs ∧
    (sigs.map (·.name)).Nodup ∧ ∀ s ∈ sigs, ∀ f, f ∈ s.calls ↔
      ∃ d ∈ (visitedAll runners.body).definitions, d.name = s.name ∧ f ∈ d.called := by
  have hints : ∀ d ∈ (visitedAll runners.body).definitions, d.Hinted := by
    rintro d (_ | ⟨_, _ | ⟨_, ⟨⟩⟩⟩) <;> exact ⟨⟨_, rfl⟩, _, rfl⟩
  obtain ⟨sigs, hsigs, hnodup, -, hmade⟩ := signatures_by_name 0 "m" runners hints
  exact ⟨sigs, hsigs, hnodup, fun s hs => (hmade s hs).2.1⟩

/-- Two functions are visited, of which the first calls one function and the second another; there is one signature,
with both calls. -/
theorem methods_share_signature : (visitedAll runners.body).definitions.map (·.called) = [["a"], ["b"]] ∧
    ∃ s, signatures (Flow.Graph.build "m" (.module runners)) = .ok [s] ∧ "a" ∈ s.calls ∧ "b" ∈ s.calls := by
  refine ⟨by decide, _, rfl, mem_sortedSet.mpr ?_, mem_sortedSet.mpr ?_⟩
  · decide
  · decide

/-- A function that shares its name with no other and not with the graph has one signature, whose complexity is the
cyclomatic number: one more than the branches and loops of its own body. -/
theorem complexity_cyclomatic (count : Nat) (name : String) (m : Module)
    (hints : ∀ d ∈ (visitedAll m.body).definitions, d.Hinted) :
    ∃ sigs, signatures (Flow.Graph.buildFrom count name (.module m)).1 = .ok sigs ∧ (sigs.map (·.name)).Nodup ∧
      (∀ n, n ∈ sigs.map (·.name) ↔ n ≠ name ∧ ∃ d ∈ (visitedAll m.body).definitions, d.name = n) ∧
      ∀ d, (visitedAll m.body).definitions.filter (·.name == d.name) = [d] → d.name ≠ name →
        ∃ s ∈ sigs, s.name = d.name ∧ s.complexity = 1 + decisionsAll d.body := by
  have hgains := gains_build count name m
  obtain ⟨sigs, hsigs, hnodup, hnames⟩ := signatures_of_gains hgains hints
  refine ⟨sigs, hsigs, hnodup, hnames, fun d hd hne => ?_⟩
  have hmem : d ∈ (visitedAll m.body).definitions := List.mem_of_mem_filter (hd ▸ List.mem_singleton_self d)
  obtain ⟨s, hs, hname⟩ := List.mem_map.mp ((hnames d.name).mpr ⟨hne, d, hmem, rfl⟩)
  refine ⟨s, hs, hname, ?_⟩
  rw [complexity_of_gains hgains hsigs hs, hname, hd, List.map_singleton, List.sum_singleton, branches_eq]

/-- A function with a loop that has a last part, a branch in each of them, and an inner function with a loop. -/
def nested : Module where
  body := [.funcDef default false "f" (.mk [] [] none [] [] none [])
    [.forLoop default true (.name default "x" .store) (.name default "xs" .load)
      [.cond default (.name default "a" .load) [.pass default] []]
      [.cond default (.name default "b" .load) [.pass default] []] none,
     .funcDef default false "g" (.mk [] [] none [] [] none [])
      [.whileLoop default (.name default "c" .load) [.pass default] []] [] none none] [] none none]

theorem nested_counted : ∃ sigs, signatures (Flow.Graph.build "m" (.module nested)) = .ok sigs ∧
    (∃ s ∈ sigs, s.name = "f" ∧ s.complexity = 3) ∧ ∃ s ∈ sigs, s.name = "g" ∧ s.complexity = 2 := by
  have hints : ∀ d ∈ (visitedAll nested.body).definitions, d.Hinted := by
    rintro d (_ | ⟨_, _ | ⟨_, ⟨⟩⟩⟩) <;> exact ⟨⟨_, rfl⟩, _, rfl⟩
  obtain ⟨sigs, hsigs, -, -, hmade⟩ := complexity_cyclomatic 0 "m" nested hints
  exact ⟨sigs, hsigs, hmade (visitedAll nested.body).definitions[0] rfl (by decide),
    hmade (visitedAll nested.body).definitions[1] rfl (by decide)⟩

end SecScan.Calls
