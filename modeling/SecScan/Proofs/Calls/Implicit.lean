import Mathlib.Data.Bool.Basic
import Mathlib.Tactic.MkIffOfInductiveProp
import SecScan.Calls.Build
import SecScan.Flow.Builder
import SecScan.Proofs.Keyed
import SecScan.Proofs.Syntax.Walk

/-!
Calls through channels. A publisher is linked to a handler if the tree has, at any places, a call that
publishes on a channel and one that subscribes the handler to it (`Linked`). Who publishes is the function
around the call (`Around`). Linking gives the pairs of a publisher and a handler the kind of an implicit
call and leaves all others as they were (`kind?_addImplicit`). So the implicit calls are those between
linked functions, wherever their statements stand (`implicit_iff_linked`). An explicit call between linked
functions is kept as an implicit one only (`kept_iff_not_linked`).
-/

namespace SecScan.Calls

open Syntax List SecScan.Calls.Graph

variable {scope caller handler a b : String} {n m root : Node} {c : Channel} {e : Edge} (g : Graph)

/-! ## Functions around a node -/

/-- The scope that the parts of a node belong to. -/
def inner (scope : String) : Node → String
  | .stmt (.funcDef _ _ name ..) => name
  | _ => scope

/-- `m` stands in the tree of `n`, and `caller` is the innermost function around it. A node with no
function around it in the tree belongs to `scope`. -/
@[mk_iff] inductive Around : String → Node → String → Node → Prop where
  | self (scope : String) (n : Node) : Around scope n (inner scope n) n
  | child {scope caller : String} {n k m : Node} : k ∈ n.children → Around (inner scope n) k caller m →
      Around scope n caller m

theorem mem_scopedTo {d : Nat} (h : n.height ≤ d) : (caller, m) ∈ scopedTo d scope n ↔ Around scope n caller m := by
  induction d generalizing scope n with
  | zero =>
    have := n.height_pos
    omega
  | succ d ih =>
    have hparts : ∀ k ∈ n.children, ((caller, m) ∈ scopedTo d (inner scope n) k ↔ Around (inner scope n) k caller m) :=
      fun k hk => ih (Nat.le_of_lt_succ (Nat.lt_of_lt_of_le (Node.height_lt_of_mem_children hk) h))
    rw [around_iff, scopedTo.eq_def]
    simp only [mem_cons, mem_flatMap, Prod.mk.injEq]
    exact or_congr Iff.rfl (exists_congr fun k => and_congr_right fun hk => hparts k hk)

theorem map_scopedTo (d : Nat) (scope : String) (n : Node) : (scopedTo d scope n).map (·.2) = n.preorderTo d := by
  induction d generalizing scope n with
  | zero => rfl
  | succ d ih => simp [scopedTo, Node.preorderTo, map_flatMap, ih]

theorem mem_preorder : m ∈ root.preorder ↔ ∃ caller, Around "global" root caller m := by
  simp [Node.preorder, ← map_scopedTo _ "global", ← mem_scopedTo (Nat.le_refl root.height)]

/-! ## Subscriptions -/

theorem mem_subscribers : handler ∈ ((subscribers root).lookup c).getD [] ↔
    ∃ n scope, Around "global" root scope n ∧ subscription? n = some (c, handler) := by
  rw [subscribers, mem_lookup_grouped]
  simp [mem_preorder]

/-! ## Links -/

variable (root : Node)

/-- A call of a method stands in the tree, with `caller` as the function around it. -/
def CallsMethod (caller method : String) (receiver : Expr) (args : List Expr) (keywords : List Keyword) : Prop :=
  ∃ l l' ctx, Around "global" root caller (.expr (.call l (.attribute l' receiver method ctx) args keywords))

def Publishes (caller : String) : Channel → Prop
  | .queue k => ∃ x as ks, CallsMethod root caller "basic_publish" x as ks ∧ keywordText? "routing_key" ks = some k
  | .signal s => ∃ x as ks, CallsMethod root caller "send" x as ks ∧ simpleName? x = some s

def Subscribes (handler : String) : Channel → Prop
  | .queue k => ∃ scope x as ks, CallsMethod root scope "basic_consume" x as ks ∧ keywordText? "queue" ks = some k ∧
      keywordText? "on_message_callback" ks = some handler
  | .signal s => ∃ scope x h as ks, CallsMethod root scope "connect" x (h :: as) ks ∧ simpleName? x = some s ∧
      simpleName? h = some handler

/-- A call that publishes reaches a handler by their channel. -/
def Linked (caller handler : String) : Prop := ∃ c, Publishes root caller c ∧ Subscribes root handler c

theorem publishes_iff : Publishes root caller c ↔ ∃ n, Around "global" root caller n ∧ publication? n = some c := by
  constructor
  · cases c with
    | queue k | signal k =>
      rintro ⟨x, as, ks, ⟨l, l', ctx, hn⟩, hk⟩
      exact ⟨_, hn, by simp [publication?, hk]⟩
  · rintro ⟨n, hn, h⟩
    unfold publication? at h
    split at h
    next m _ _ _ =>
      have hcall : CallsMethod root caller m _ _ _ := ⟨_, _, _, hn⟩
      cases c <;> grind [Publishes, Option.map_eq_some_iff]
    · cases h

theorem subscribes_iff : Subscribes root handler c ↔
    ∃ n scope, Around "global" root scope n ∧ subscription? n = some (c, handler) := by
  constructor
  · cases c with
    | queue k =>
      rintro ⟨scope, x, as, ks, ⟨l, l', ctx, hn⟩, hk, hh⟩
      exact ⟨_, scope, hn, by simp [subscription?, hk, hh]⟩
    | signal s =>
      rintro ⟨scope, x, h, as, ks, ⟨l, l', ctx, hn⟩, hs, hh⟩
      exact ⟨_, scope, hn, by simp [subscription?, hs, hh]⟩
  · rintro ⟨n, scope, hn, h⟩
    unfold subscription? at h
    split at h
    next m _ args _ =>
      have hcall : CallsMethod root scope m _ args _ := ⟨_, _, _, hn⟩
      cases c <;> cases args <;> grind [Subscribes, Option.bind_eq_some_iff]
    · cases h

/-- The edges that linking adds, in order. -/
def links : List Edge :=
  (withScopes root).flatMap fun (caller, n) => ((publication? n).toList).flatMap fun c =>
    ((subscribers root).lookup c).getD [] |>.map fun callee =>
      { caller, callee, kind := .synthetic, mechanism := some c.mechanism }

theorem addImplicit_eq : g.addImplicit root = (links root).foldl addEdge g := by
  unfold addImplicit links
  rw [foldl_flatMap]
  dsimp only
  congr 1
  funext g ⟨caller, n⟩
  cases publication? n with
  | none => rfl
  | some c => simp [foldl_map]

theorem exists_link : (∃ e ∈ links root, e.caller = a ∧ e.callee = b) ↔ Linked root a b := by
  simp only [links, withScopes, mem_flatMap, Prod.exists, mem_scopedTo (Nat.le_refl _), Option.mem_toList, mem_map,
    mem_subscribers, ← subscribes_iff, Linked, publishes_iff]
  constructor
  · rintro ⟨-, ⟨caller, n, hn, c, hc, h, hh, rfl⟩, rfl, rfl⟩
    exact ⟨c, ⟨n, hn, hc⟩, hh⟩
  · rintro ⟨c, ⟨n, hn, hc⟩, hh⟩
    exact ⟨_, ⟨a, n, hn, c, hc, b, hh, rfl⟩, rfl, rfl⟩

/-! ## Kinds of calls -/

/-- The kind of the edge between two functions. -/
def Graph.kind? (g : Graph) (caller callee : String) : Option Kind :=
  (g.edges.find? fun e => e.caller == caller && e.callee == callee).map (·.kind)

theorem kind?_addEdge (e : Edge) :
    (g.addEdge e).kind? a b = if e.caller = a ∧ e.callee = b then some e.kind else g.kind? a b := by
  have hedges : (g.addEdge e).edges = putEdge e g.edges := by
    unfold addEdge Graph.enter
    dsimp only
    split <;> split <;> rfl
  rw [kind?, hedges, kind?]
  induction g.edges with
  | nil =>
    simp only [putEdge, find?_cons]
    split <;> simp_all
  | cons x es ih =>
    rw [putEdge]
    split
    · simp only [find?_cons]
      grind
    · simp only [find?_cons]
      grind

theorem kind?_foldl {es : List Edge} (hes : ∀ e ∈ es, e.kind = .synthetic) : (es.foldl addEdge g).kind? a b =
    if es.any (fun e => e.caller == a && e.callee == b) then some .synthetic else g.kind? a b := by
  induction es generalizing g with
  | nil => rfl
  | cons e es ih =>
    rw [foldl_cons, ih _ fun x hx => hes x (mem_cons_of_mem _ hx), kind?_addEdge, hes e mem_cons_self]
    grind

/-- Linking changes the kinds of the calls between linked functions, and no others. -/
theorem kind?_addImplicit (a b : String) :
    Linked root a b ∧ (g.addImplicit root).kind? a b = some .synthetic ∨
      ¬ Linked root a b ∧ (g.addImplicit root).kind? a b = g.kind? a b := by
  have hkind : ∀ e ∈ links root, e.kind = .synthetic := by
    simp +contextual [links]
    grind
  rw [addImplicit_eq, kind?_foldl g hkind, ← exists_link]
  split
  next h => exact .inl ⟨by simpa using h, rfl⟩
  next h => exact .inr ⟨by simpa using h, rfl⟩

/-- No call goes through a channel. -/
def Graph.Explicit (g : Graph) : Prop := ∀ a b, g.kind? a b ≠ some .synthetic

theorem Graph.Explicit.enter (h : g.Explicit) (name : String) (kind : Option String) :
    (g.enter name kind).Explicit := by
  unfold Graph.enter
  split
  · exact h
  · exact h

theorem Graph.Explicit.call (h : g.Explicit) (name : String) (kind : Option String) (he : e.kind ≠ .synthetic) :
    ((g.enter name kind).addEdge e).Explicit := by
  intro a b
  rw [kind?_addEdge]
  split
  · simpa using he
  · exact h.enter g name kind a b

theorem explicit_addCall (h : g.Explicit) (caller : String) (t : Target) : (g.addCall caller t).Explicit := by
  unfold addCall
  split
  · exact h.call g _ _ (by simp)
  · split
    · exact h.call g _ _ (by simp)
    · exact foldlRecOn (motive := Graph.Explicit) _ _ h fun g hg c _ => hg.call g _ _ (by simp)

/-- The call graph of a program has explicit calls only, before they are linked. -/
theorem explicit_built (flow : Flow.Graph) : ((({} : Graph).addDefinitions root).addFlow flow).Explicit := by
  have hclasses : (({} : Graph).addDefinitions root).Explicit := by
    refine foldlRecOn (motive := Graph.Explicit) _ _ (by simp [Graph.Explicit, kind?]) fun g hg n _ => ?_
    split
    · exact hg
    · exact hg
  refine foldlRecOn (motive := Graph.Explicit) _ _ (hclasses.enter _ _ _) fun g hg b _ => ?_
  exact foldlRecOn (motive := Graph.Explicit) _ _ (hg.enter _ _ _) fun g hg t _ => explicit_addCall g hg _ t

theorem linked_congr {ss ss' : List Stmt} (h : ∀ s, s ∈ ss ↔ s ∈ ss') :
    Linked (.module ⟨ss⟩) a b ↔ Linked (.module ⟨ss'⟩) a b := by
  have hcalls : CallsMethod (.module ⟨ss⟩) = CallsMethod (.module ⟨ss'⟩) := by
    funext caller method x as ks
    simp [CallsMethod, around_iff "global" (.module _), inner, Node.children, Node.stmts, h]
  exact exists_congr fun c => by cases c <;> simp [Publishes, Subscribes, hcalls]

/-- The calls that linking makes implicit are those between linked functions. -/
theorem implicit_iff_linked (g : Graph) (m : Module) (caller handler : String) :
    ((g.addImplicit (.module m)).kind? caller handler = some .synthetic ↔
      g.kind? caller handler = some .synthetic ∨ Linked (.module m) caller handler) ∧
    ((g.addImplicit (.module m)).kind? caller handler = none ↔
      g.kind? caller handler = none ∧ ¬ Linked (.module m) caller handler) ∧
    ∀ l s t r, (g.addImplicit (.module ⟨l ++ s :: t :: r⟩)).kind? caller handler =
      (g.addImplicit (.module ⟨l ++ t :: s :: r⟩)).kind? caller handler := by
  rw [← and_assoc]
  refine ⟨?_, fun l s t r => ?_⟩
  · rcases kind?_addImplicit g (.module m) caller handler with ⟨h, hkind⟩ | ⟨h, hkind⟩
    · simp [h, hkind]
    · simp [h, hkind]
  · have hsame := @linked_congr caller handler (l ++ s :: t :: r) (l ++ t :: s :: r) (by simp; grind)
    have hst := kind?_addImplicit g (.module ⟨l ++ s :: t :: r⟩) caller handler
    have hts := kind?_addImplicit g (.module ⟨l ++ t :: s :: r⟩) caller handler
    grind

/-- A message is published and consumed under the empty text. -/
def unkeyed : Module where
  body := [
    .funcDef ⟨1, 0, 2, 35⟩ false "tell" (.mk [] [] none [] [] none []) [
      .expr ⟨2, 4, 2, 35⟩ (.call ⟨2, 4, 2, 35⟩
        (.attribute ⟨2, 4, 2, 19⟩ (.name ⟨2, 4, 2, 5⟩ "c" .load) "basic_publish" .load) []
        [.mk ⟨2, 20, 2, 34⟩ "routing_key" (.constant ⟨2, 32, 2, 34⟩ (.text "") none)])] [] none none,
    .expr ⟨3, 0, 3, 51⟩ (.call ⟨3, 0, 3, 51⟩
      (.attribute ⟨3, 0, 3, 15⟩ (.name ⟨3, 0, 3, 1⟩ "c" .load) "basic_consume" .load) []
      [.mk ⟨3, 16, 3, 24⟩ "queue" (.constant ⟨3, 22, 3, 24⟩ (.text "") none),
       .mk ⟨3, 26, 3, 50⟩ "on_message_callback" (.name ⟨3, 46, 3, 50⟩ "hear" .load)])]

/-- The empty text is no key. -/
theorem unkeyed_not_linked : ((({} : Graph).addFlow (.build "m" (.module unkeyed))).addImplicit (.module unkeyed)).kind?
    "tell" "hear" = none := by decide

/-- Of the calls of a program, linking keeps those between functions that are not linked as they were. -/
theorem kept_iff_not_linked (m : Module) (flow : Flow.Graph) (caller callee : String) :
    let g := (({} : Graph).addDefinitions (.module m)).addFlow flow
    ((g.addImplicit (.module m)).kind? caller callee = g.kind? caller callee ↔ ¬ Linked (.module m) caller callee) ∧
      ((g.addImplicit (.module m)).kind? caller callee = some .synthetic ↔ Linked (.module m) caller callee) := by
  intro g
  have hexplicit : g.kind? caller callee ≠ some .synthetic := explicit_built _ flow caller callee
  rcases kind?_addImplicit g (.module m) caller callee with ⟨h, hkind⟩ | ⟨h, hkind⟩
  · simp [h, hkind, hexplicit.symm]
  · simp [h, hkind, hexplicit]

/-- A function that calls a handler, and sends on the signal that the handler is connected to. -/
def notifying : Module where
  body := [
    .funcDef ⟨1, 0, 3, 18⟩ false "notify" (.mk [] [] none [] [] none []) [
      .expr ⟨2, 4, 2, 12⟩ (.call ⟨2, 4, 2, 12⟩ (.name ⟨2, 4, 2, 10⟩ "handle" .load) [] []),
      .expr ⟨3, 4, 3, 18⟩ (.call ⟨3, 4, 3, 18⟩
        (.attribute ⟨3, 4, 3, 16⟩ (.name ⟨3, 4, 3, 11⟩ "changed" .load) "send" .load) [] [])] [] none none,
    .expr ⟨4, 0, 4, 23⟩ (.call ⟨4, 0, 4, 23⟩
      (.attribute ⟨4, 0, 4, 15⟩ (.name ⟨4, 0, 4, 7⟩ "changed" .load) "connect" .load)
      [.name ⟨4, 16, 4, 22⟩ "handle" .load] [])]

/-- The call of the handler is direct before it is linked, and is not afterwards. -/
theorem direct_call_lost :
    let g := (({} : Graph).addDefinitions (.module notifying)).addFlow (.build "m" (.module notifying))
    g.kind? "notify" "handle" = some .direct ∧
      (g.addImplicit (.module notifying)).kind? "notify" "handle" = some .synthetic := by decide

end SecScan.Calls
