import SecScan.Proofs.Taint.ExplicitFlow
import SecScan.Proofs.Taint.Provenance
import Mathlib.Data.List.Chain

/-!
Flows that are reported as explicit. Each of their versions has an explicit mark, so one of the rules
that taint follows without conditions has made it (`Explicit`), and as a version is made once, this is
the rule that the search went back by (`Way.feeds`). So the path is a chain of assignments that do not
sanitize and of phis, from the result of a source call to what the sink loads
(`explicit_flow_is_data_flow`).
-/

namespace SecScan.Flow

open Syntax Ssa List

variable {c : Taint.Config} {i : RenamedItem} {g : Graph} {b : SsaBlock}

/-! ## Assignments -/

namespace Item

def value? : Item → Option Expr
  | .stmt (.assign _ _ v _) => some v
  | .stmt (.augAssign _ _ _ v) => some v
  | .stmt (.annAssign _ _ _ v _) => v
  | _ => none

def CallsSanitizer (c : Taint.Config) (i : Item) : Prop :=
  ∃ v f, i.value? = some v ∧ v.callName? = some f ∧ f ∈ c.sanitizers

theorem sanitizes_iff {i : Item} : i.sanitizes c = true ↔ i.CallsSanitizer c := by
  have hcall : ∀ v : Expr, (callAmong c.sanitizers v).isSome = true ↔ ∃ f, v.callName? = some f ∧ f ∈ c.sanitizers := by
    intro v
    simp [Option.isSome_iff_exists, callAmong_eq_some]
  unfold CallsSanitizer
  cases i with
  | stmt s =>
    cases s with
    | annAssign l t hint v simple => cases v <;> simp [sanitizes, value?, hcall]
    | _ => simp [sanitizes, value?, hcall]
  | expr e => simp [sanitizes, value?]
  | arg a => simp [sanitizes, value?]

theorem bindsSource_of_source? {i : Item} {name : String}
    (h : i.source? c = some name) (ha : i.Assigns) : i.BindsSource c := by
  unfold source? at h
  split at h
  · obtain ⟨hname, hmem⟩ := callAmong_eq_some.mp h
    exact ⟨_, _, _, _, name, rfl, hname, hmem⟩
  · exact ha.elim
  · simp at h

end Item

/-- An item of a block that was not renamed makes no version. -/
theorem writes_ofGraph (hg : g.WellFormed) (hb : b ∈ (ofGraph g).blocks) (hi : i ∈ b.items) :
    i.writes = [] ∨ i.writes.map (·.1) = i.item.binds := by
  obtain ⟨y, -, -, ⟨x, hx, -, hitems, -⟩ | ⟨-, -, hitems⟩⟩ := cases_ofGraph hb
  · obtain ⟨e, he⟩ := exists_from hg hx
    obtain ⟨k, hk⟩ := getElem?_of_mem (hitems ▸ hi)
    exact .inr (he.item hk).1
  · rw [hitems] at hi
    obtain ⟨j, -, rfl⟩ := mem_map.mp hi
    exact .inl rfl

theorem assigns_of_defines (hg : g.WellFormed)
    (hb : b ∈ (ofGraph g).blocks) (hi : i ∈ b.items) {v : Version} (hv : v ∈ i.defines) :
    i.item.Assigns := by
  obtain ⟨w, hw, -⟩ := mem_map.mp (Taint.mem_writes_of_defines hv)
  have hbinds : w.1 ∈ i.item.binds := by
    rcases writes_ofGraph hg hb hi with hnone | hsome
    · simp [hnone] at hw
    · exact hsome ▸ mem_map_of_mem hw
  unfold RenamedItem.defines at hv
  split at hv
  · simp at hv
  · rename_i s hloop hs
    rw [hs] at hbinds ⊢
    cases s with
    | assign => trivial
    | annAssign => trivial
    | augAssign => trivial
    | forLoop => exact absurd rfl (hloop _ _ _ _ _ _ _)
    | _ => simp [Item.binds, Item.assigned] at hbinds
  · simp at hv

end SecScan.Flow

namespace SecScan.Taint

open Syntax SecScan.Flow Ssa List

variable {g : Graph}
variable {c : Config} {v : Version}

/-! ## Chains -/

/-- One version is made from another, by an assignment that loads it and does not sanitize, or by a
phi. -/
inductive Feeds (s : Ssa) (c : Config) (u v : Version) : Prop where
  | assign {b : SsaBlock} {i : RenamedItem} : b ∈ s.blocks → i ∈ b.items → i.item.Assigns →
      ¬ i.item.CallsSanitizer c → u ∈ i.loads → v ∈ i.writes.map (·.2) → Feeds s c u v
  | phi {b : SsaBlock} {f : Phi} : b ∈ s.blocks → f ∈ b.phis → u ∈ f.operands.map (·.2) → v = f.result → Feeds s c u v

/-- A chain of versions from a source call to a sink statement. -/
structure DataFlow (s : Ssa) (c : Config) (sink : RenamedItem) (path : List Version) : Prop where
  nodup : path.Nodup
  /-- The first version is the result of a source call. -/
  source : ∃ p, path.head? = some p ∧ ∃ b ∈ s.blocks, ∃ i ∈ b.items, i.item.BindsSource c ∧ p ∈ i.writes.map (·.2)
  chain : path.IsChain (Feeds s c)
  /-- The sink loads the last version. -/
  sink : ∃ p, path.getLast? = some p ∧ p ∈ sink.loads

/-- An explicitly tainted version begins the taint, or its tainted inputs feed it and there is one. -/
theorem Explicit.begins_or_feeds (hg : g.WellFormed) (h : Explicit (ofGraph g) c v) :
    Begins (ofGraph g) c v ∨ taintedInputs (ofGraph g) (marks (ofGraph g) c) v ≠ [] ∧
      ∀ u ∈ taintedInputs (ofGraph g) (marks (ofGraph g) c) v, Feeds (ofGraph g) c u v := by
  have hs := nodup_versions hg
  cases h with
  | source hbegins => exact .inl hbegins
  | @assign b i u _ hu hb hi hclean hload hv =>
    have hd := definition?_eq hs (.item hb hi (mem_writes_of_defines hv)) (fun _ hj => Definition.item.inj hj ▸ hv)
    have hinputs : ∀ w, w ∈ taintedInputs (ofGraph g) (marks (ofGraph g) c) v ↔
        w ∈ i.loads ∧ (marks (ofGraph g) c).has w := by
      intro w
      simp [taintedInputs, hd, Definition.inputs]
    refine .inr ⟨ne_nil_of_mem ((hinputs u).mpr ⟨hload, hu.has⟩), fun w hw => ?_⟩
    refine .assign hb hi (assigns_of_defines hg hb hi hv) ?_ ((hinputs w).mp hw).1 (mem_writes_of_defines hv)
    rw [← Item.sanitizes_iff, hclean]
    simp
  | @phi b f u hu hb hf hop =>
    have hd := definition?_eq hs (.phi hb hf rfl) (by simp)
    have hinputs : ∀ w, w ∈ taintedInputs (ofGraph g) (marks (ofGraph g) c) f.result ↔
        w ∈ f.operands.map (·.2) ∧ (marks (ofGraph g) c).has w := by
      intro w
      simp [taintedInputs, hd, Definition.inputs]
    exact .inr ⟨ne_nil_of_mem ((hinputs u).mpr ⟨hop, hu.has⟩), fun w hw => .phi hb hf ((hinputs w).mp hw).1 rfl⟩

/-- A way back through explicitly tainted versions follows what feeds them, down to a version that
begins the taint. -/
theorem Way.feeds (hg : g.WellFormed) {l : List Version}
    (h : Way (ofGraph g) (marks (ofGraph g) c) ((initial (ofGraph g) c).map (·.version)) v l)
    (hexp : ∀ x ∈ l, Explicit (ofGraph g) c x) :
    l.IsChain (fun x u => Feeds (ofGraph g) c u x) ∧ ∃ p, l.getLast? = some p ∧ Begins (ofGraph g) c p := by
  induction h with
  | @stop v _ hend =>
    refine ⟨.singleton v, v, rfl, ?_⟩
    rcases hend with hsource | hnone
    · exact mem_initial.mp hsource
    · exact ((hexp v (by simp)).begins_or_feeds hg).resolve_right fun hfeeds => hfeeds.1 hnone
  | @step v u l _ hsource hu hl ih =>
    obtain ⟨hchain, p, hp, hbegins⟩ := ih fun x hx => hexp x (mem_cons_of_mem _ hx)
    have hfeeds : Feeds (ofGraph g) c u v := by
      rcases (hexp v (by simp)).begins_or_feeds hg with hbegins | ⟨-, hall⟩
      · exact absurd (mem_initial.mpr hbegins) hsource
      · exact hall u hu
    obtain ⟨l', rfl⟩ : ∃ l', l = u :: l' := by cases hl <;> exact ⟨_, rfl⟩
    exact ⟨.cons_cons hfeeds hchain, p, by rw [getLast?_cons_cons, hp], hbegins⟩

/-- The marks of a path without implicit marks are explicit. -/
theorem explicit_of_path {s : Ssa} {path : List Version}
    (himplicit : (path.any fun x => ((marks s c).find x).any (·.implicit)) = false) {x : Version}
    (hx : x ∈ path) (hhas : (marks s c).has x) : Explicit s c x := by
  cases hm : (marks s c).find x with
  | none =>
    obtain ⟨m, hmem, heq⟩ := any_eq_true.mp hhas
    exact absurd heq (find?_eq_none.mp hm m hmem)
  | some m =>
    have hfalse := any_eq_false.mp himplicit x hx
    rw [hm] at hfalse
    have hversion : m.version = x := by simpa using find?_some hm
    exact hversion ▸ explicit_of_mark (mem_of_find?_eq_some hm) (by simpa using hfalse)

/-- A flow that is reported as explicit is a chain of data flow, from a source call to the sink
statement. -/
theorem explicit_flow_is_data_flow (name : String) (root : Node) (c : Config) {f : Flow}
    (hf : f ∈ analyze (Graph.build name root) c) (himplicit : f.implicit = false) :
    ∃ path : List Version, f.path = path.map (·.text) ∧ f.path.Nodup ∧ f.path ≠ [] ∧
      ∃ b ∈ (Ssa.ofGraph (Graph.build name root)).blocks, ∃ i ∈ b.items,
        i.item.sink? c = some f.sink ∧ f.span = i.item.node.loc?.map Span.ofLoc ∧
        DataFlow (Ssa.ofGraph (Graph.build name root)) c i path := by
  have hg := build_wellFormed name root
  obtain ⟨r, hr, rfl⟩ := List.mem_map.mp hf
  obtain ⟨v, hreports⟩ := exists_reports hr
  obtain ⟨b, hb, i, hi, hsink, hspan, hv⟩ := hreports.sink
  obtain ⟨l, hl, hnodup, hpath⟩ := hreports.way
  have hexp : ∀ x ∈ l, Explicit (Ssa.ofGraph (Graph.build name root)) c x := fun x hx =>
    explicit_of_path (hreports.implicit.symm.trans himplicit) (by simpa [hpath] using hx) (hl.has hx)
  obtain ⟨hchain, p, hp, hbegins⟩ := hl.feeds hg hexp
  have hpathNodup : r.path.Nodup := by rw [hpath]; exact List.nodup_reverse.mpr hnodup
  have hlast : r.path.getLast? = some v := by rw [hpath, List.getLast?_reverse, hl.head?]
  refine ⟨r.path, rfl, hpathNodup.map Version.text_injective, ?_, b, hb, i, hi, hsink, hspan,
    hpathNodup, ?_, ?_, v, hlast, hv⟩
  · intro hnil
    simp [List.map_eq_nil_iff.mp hnil] at hlast
  · obtain ⟨d, hd, j, hj, hname, hdefines⟩ := hbegins
    obtain ⟨n, hn⟩ := Option.isSome_iff_exists.mp hname
    exact ⟨p, by rw [hpath, List.head?_reverse, hp], d, hd, j, hj,
      Item.bindsSource_of_source? hn (assigns_of_defines hg hd hj hdefines),
      mem_writes_of_defines hdefines⟩
  · rw [hpath]
    exact List.isChain_reverse.mpr hchain

/-- `s = input(); if c: x = s; else: x = quote(s); eval(x)` -/
def choosing : Module where
  body := [ .assign ⟨1, 0, 1, 11⟩ [letter 1 0 "s" .store] (inputCall 1 4) none,
    .cond ⟨2, 0, 5, 16⟩ (letter 2 3 "c" .load)
      [.assign ⟨3, 4, 3, 9⟩ [letter 3 4 "x" .store] (letter 3 8 "s" .load) none]
      [.assign ⟨5, 4, 5, 16⟩ [letter 5 4 "x" .store]
        (.call ⟨5, 8, 5, 16⟩ (.name ⟨5, 8, 5, 13⟩ "quote" .load) [letter 5 14 "s" .load] []) none],
    evalCall 6 0 "x"]

def inputToEvalQuoted : Config := { inputToEval with sanitizers := ["quote"] }

/-- Of the two branches, only the one that does not sanitize is on a path. -/
theorem choice_is_data_flow : ∃ f ∈ analyze (Graph.build "m" (.module choosing)) inputToEvalQuoted,
      f.implicit = false ∧ f.path = ["s_1", "x_2", "x_3"] ∧
      ∃ path : List Version, f.path = path.map (·.text) ∧ f.path.Nodup ∧ f.path ≠ [] ∧
        ∃ b ∈ (Ssa.ofGraph (Graph.build "m" (.module choosing))).blocks, ∃ i ∈ b.items,
          i.item.sink? inputToEvalQuoted = some f.sink ∧
          f.span = i.item.node.loc?.map Span.ofLoc ∧
          DataFlow (Ssa.ofGraph (Graph.build "m" (.module choosing))) inputToEvalQuoted i path := by
  have hflow : ∃ f ∈ analyze (Graph.build "m" (.module choosing)) inputToEvalQuoted,
      f.implicit = false ∧ f.path = ["s_1", "x_2", "x_3"] := by decide
  obtain ⟨f, hf, himplicit, hpath⟩ := hflow
  exact ⟨f, hf, himplicit, hpath, explicit_flow_is_data_flow _ _ _ hf himplicit⟩

end SecScan.Taint
