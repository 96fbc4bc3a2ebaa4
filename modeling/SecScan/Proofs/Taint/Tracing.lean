import SecScan.Proofs.Flow.SsaPaths
import SecScan.Proofs.Taint.Spreading

/-!
Ways back from a tainted version. The search finds the ways through tainted inputs that repeat no
version, up to where one first meets a source or a version without tainted inputs (`mem_backward`);
such a way exists as soon as there is any (`Way.exists_nodup`). So a sink is reported exactly if one
of its arguments has a way back (`sink_reported_iff`), which every version tainted by assignments and
phis alone has. A version that only its own loop taints has none (`loop_counter_unreported`).
-/

namespace SecScan.Taint

open Syntax SecScan.Flow List SecScan.Flow.Graph Ssa

variable {s : Ssa} {d : Definition} {sink : String} {f : Found}
variable {v : Version} {c : Config} {l : List Version} {i : RenamedItem}

section ways

variable (s : Ssa) (ms : Marks) (sources : List Version)

def taintedInputs (v : Version) : List Version := (((definition? s v).map (·.inputs)).getD []).filter ms.has

/-- A way back through tainted inputs, to the first version that a source defines or that has no
tainted inputs. -/
inductive Way : Version → List Version → Prop where
  | stop {v : Version} : ms.has v → (v ∈ sources ∨ taintedInputs s ms v = []) → Way v [v]
  | step {v u : Version} {l : List Version} : ms.has v → v ∉ sources → u ∈ taintedInputs s ms v →
      Way u l → Way v (v :: l)

variable {s ms sources}

theorem backward_succ (fuel : Nat) (v : Version) (rest : List Version) : backward s ms sources (fuel + 1) v rest =
      if v ∈ rest ∨ ms.has v = false then []
      else if v ∈ sources ∨ taintedInputs s ms v = [] then [v :: rest]
      else (taintedInputs s ms v).flatMap fun u => backward s ms sources fuel u (v :: rest) := by
  rw [backward]
  by_cases hskip : v ∈ rest ∨ ms.has v = false
  · simp [hskip]
  · by_cases hsource : v ∈ sources
    · simp [hskip, hsource]
    · simp only [Bool.or_eq_true, contains_iff_mem, Bool.not_eq_true', hskip, hsource, ↓reduceIte, false_or]
      split
      · rename_i hnone
        simp [taintedInputs, hnone]
      · rename_i hsome
        exact (if_neg hsome).symm

/-- The search finds the ways that repeat no version and are as long as the fuel allows. -/
theorem mem_backward {fuel : Nat} {rest path : List Version} :
    path ∈ backward s ms sources fuel v rest ↔ ∃ l, Way s ms sources v l ∧ l.Nodup ∧
      (∀ x ∈ l, x ∉ rest) ∧ l.length ≤ fuel ∧ path = l.reverse ++ rest := by
  induction fuel generalizing v rest with
  | zero =>
    constructor
    · intro h
      simp [backward] at h
    · rintro ⟨l, hl, -, -, hlen, -⟩
      cases hl <;> simp at hlen
  | succ fuel ih =>
    rw [backward_succ]
    constructor
    · intro h
      split at h
      · simp at h
      · rename_i hskip
        have hrest : v ∉ rest := fun hv => hskip (.inl hv)
        have hv : ms.has v = true := by simpa using fun hv => hskip (.inr hv)
        split at h
        · rename_i hend
          obtain rfl := mem_singleton.mp h
          exact ⟨[v], .stop hv hend, by simp, by simpa using hrest, by simp, by simp⟩
        · rename_i hend
          obtain ⟨u, hu, h⟩ := mem_flatMap.mp h
          obtain ⟨l, hl, hnodup, havoid, hlen, rfl⟩ := ih.mp h
          refine ⟨v :: l, .step hv (fun hs => hend (.inl hs)) hu hl, ?_, ?_, by simpa using hlen, by simp⟩
          · exact nodup_cons.mpr ⟨fun hv => havoid v hv mem_cons_self, hnodup⟩
          · intro x hx
            rcases mem_cons.mp hx with rfl | hx
            · exact hrest
            · exact fun hr => havoid x hx (mem_cons_of_mem _ hr)
    · rintro ⟨l, hl, hnodup, havoid, hlen, rfl⟩
      cases hl with
      | stop hv hend =>
        have hrest : v ∉ rest := havoid v (by simp)
        simp [hrest, hv, hend]
      | @step _ u l hv hsource hu hl =>
        have hrest : v ∉ rest := havoid v mem_cons_self
        have hne : taintedInputs s ms v ≠ [] := ne_nil_of_mem hu
        obtain ⟨hvl, hnodup⟩ := nodup_cons.mp hnodup
        simp only [hrest, hv, hsource, hne, or_self, ↓reduceIte, Bool.true_eq_false]
        refine mem_flatMap.mpr ⟨u, hu, ih.mpr ⟨l, hl, hnodup, ?_, by simpa using hlen, by simp⟩⟩
        intro x hx hxr
        rcases mem_cons.mp hxr with rfl | hxr
        · exact hvl hx
        · exact havoid x (mem_cons_of_mem _ hx) hxr

theorem Way.exists_suffix {u : Version} (h : Way s ms sources u l) (hv : v ∈ l) :
    ∃ l', Way s ms sources v l' ∧ l' <:+ l := by
  induction h with
  | @stop w hw hend =>
    obtain rfl := mem_singleton.mp hv
    exact ⟨[v], .stop hw hend, suffix_refl _⟩
  | @step w u l hw hsource hu hl ih =>
    rcases mem_cons.mp hv with rfl | hv
    · exact ⟨v :: l, .step hw hsource hu hl, suffix_refl _⟩
    · obtain ⟨l', hl', hsuffix⟩ := ih hv
      exact ⟨l', hl', hsuffix.trans (suffix_cons _ _)⟩

/-- What lies between two visits of a version can be left out. -/
theorem Way.exists_nodup (h : Way s ms sources v l) : ∃ l', Way s ms sources v l' ∧ l'.Nodup := by
  induction h with
  | @stop v hv hend => exact ⟨[v], .stop hv hend, by simp⟩
  | @step v u l hv hsource hu hl ih =>
    obtain ⟨l', hl', hnodup⟩ := ih
    by_cases hmem : v ∈ l'
    · obtain ⟨k, hk, hsuffix⟩ := hl'.exists_suffix hmem
      exact ⟨k, hk, hnodup.sublist hsuffix.sublist⟩
    · exact ⟨v :: l', .step hv hsource hu hl', nodup_cons.mpr ⟨hmem, hnodup⟩⟩

theorem Way.has {x : Version} (h : Way s ms sources v l) (hx : x ∈ l) : ms.has x := by
  induction h with
  | stop hv _ =>
    obtain rfl := mem_singleton.mp hx
    exact hv
  | step hv _ _ _ ih =>
    rcases mem_cons.mp hx with rfl | hx
    · exact hv
    · exact ih hx

/-- The fuel suffices: a way that repeats nothing is no longer than there are marks. -/
theorem backward_ne_nil_iff : backward s ms sources (ms.length + 1) v [] ≠ [] ↔ ∃ l, Way s ms sources v l := by
  constructor
  · intro h
    obtain ⟨path, hpath⟩ := exists_mem_of_ne_nil _ h
    obtain ⟨l, hl, -⟩ := mem_backward.mp hpath
    exact ⟨l, hl⟩
  · rintro ⟨l, hl⟩
    obtain ⟨l', hl', hnodup⟩ := hl.exists_nodup
    have hsubset : l' ⊆ ms.map (·.version) := fun x hx => Marks.has_iff.mp (hl'.has hx)
    have hlen := (subperm_of_subset hnodup hsubset).length_le
    rw [length_map] at hlen
    exact ne_nil_of_mem (mem_backward.mpr ⟨l', hl', hnodup, by simp, by omega, rfl⟩)

end ways

/-! ## Definitions -/

/-- What makes a version: a phi, or an item that binds it. -/
inductive Makes (s : Ssa) (v : Version) : Definition → Prop where
  | phi {b : SsaBlock} {f : Phi} : b ∈ s.blocks → f ∈ b.phis → f.result = v → Makes s v (.phi f)
  | item {b : SsaBlock} {i : RenamedItem} : b ∈ s.blocks → i ∈ b.items → v ∈ i.writes.map (·.2) → Makes s v (.item i)

/-- If no version is made twice, one thing makes it. -/
theorem Makes.unique (hs : s.versions.Nodup) {e : Definition} (hd : Makes s v d) (he : Makes s v e) : d = e := by
  have hitem : ∀ {b : SsaBlock} {i : RenamedItem}, i ∈ b.items → v ∈ i.writes.map (·.2) →
      v ∈ b.items.flatMap fun i => i.writes.map (·.2) :=
    fun hi hv => mem_flatMap.mpr ⟨_, hi, hv⟩
  have hphi : ∀ {b : SsaBlock} {f : Phi}, f ∈ b.phis → f.result = v → v ∈ b.phis.map (·.result) :=
    fun hf hv => hv ▸ mem_map_of_mem hf
  have hblock {b : SsaBlock} (hb : b ∈ s.blocks) := nodup_append.mp ((nodup_flatMap.mp hs).1 b hb)
  cases hd with
  | phi hb hf hv =>
    cases he with
    | phi hb' hf' hv' =>
      obtain rfl := eq_of_mem_flatMap hs hb hb' (mem_append_left _ (hphi hf hv)) (mem_append_left _ (hphi hf' hv'))
      rw [inj_on_of_nodup_map (hblock hb).1 hf hf' (hv.trans hv'.symm)]
    | item hb' hi' hv' =>
      obtain rfl := eq_of_mem_flatMap hs hb hb' (mem_append_left _ (hphi hf hv)) (mem_append_right _ (hitem hi' hv'))
      exact absurd rfl ((hblock hb).2.2 v (hphi hf hv) v (hitem hi' hv'))
  | item hb hi hv =>
    cases he with
    | phi hb' hf' hv' =>
      obtain rfl := eq_of_mem_flatMap hs hb hb' (mem_append_right _ (hitem hi hv)) (mem_append_left _ (hphi hf' hv'))
      exact absurd rfl ((hblock hb).2.2 v (hphi hf' hv') v (hitem hi hv))
    | item hb' hi' hv' =>
      obtain rfl := eq_of_mem_flatMap hs hb hb' (mem_append_right _ (hitem hi hv)) (mem_append_right _ (hitem hi' hv'))
      rw [eq_of_mem_flatMap (hblock hb).2.1 hi hi' hv hv']

theorem definition?_eq (hs : s.versions.Nodup) (hd : Makes s v d) (hdefines : ∀ i, d = .item i → v ∈ i.defines) :
    definition? s v = some d := by
  have hmem : ∀ e, (e ∈ s.blocks.flatMap fun b =>
      (b.phis.filter (·.result == v)).map Definition.phi ++
        (b.items.filter (·.defines.contains v)).map Definition.item) ↔
      Makes s v e ∧ ∀ i, e = .item i → v ∈ i.defines := by
    intro e
    simp only [mem_flatMap, mem_append, mem_map, mem_filter, beq_iff_eq, contains_iff_mem]
    constructor
    · rintro ⟨b, hb, ⟨f, ⟨hf, hv⟩, rfl⟩ | ⟨i, ⟨hi, hv⟩, rfl⟩⟩
      · exact ⟨.phi hb hf hv, by simp⟩
      · exact ⟨.item hb hi (mem_writes_of_defines hv), fun j hj => Definition.item.inj hj ▸ hv⟩
    · rintro ⟨⟨hb, hf, hv⟩ | ⟨hb, hi, -⟩, hdefines⟩
      · exact ⟨_, hb, .inl ⟨_, ⟨hf, hv⟩, rfl⟩⟩
      · exact ⟨_, hb, .inr ⟨_, ⟨hi, hdefines _ rfl⟩, rfl⟩⟩
  unfold definition?
  have hne := ne_nil_of_mem ((hmem d).mpr ⟨hd, hdefines⟩)
  rw [List.getLast?_eq_some_getLast hne]
  exact congrArg some (((hmem _).mp (getLast_mem hne)).1.unique hs hd)

/-! ## Taint without conditions -/

theorem Explicit.has (h : Explicit s c v) : (marks s c).has v := by
  induction h with
  | source h => exact (marks_closed s c).source _ h
  | assign _ hb hi hclean hu hv ih => exact (marks_closed s c).hands _ _ ih (.assign hb hi hclean hu hv)
  | phi _ hb hf hu ih => exact (marks_closed s c).hands _ _ ih (.phi hb hf hu)

/-- There is a way back from the version to where its taint began. -/
def Traced (s : Ssa) (c : Config) (v : Version) : Prop := ∃ l, Way s (marks s c) ((initial s c).map (·.version)) v l

theorem Explicit.traced (hs : s.versions.Nodup) (h : Explicit s c v) : Traced s c v := by
  -- a tainted version that makes another one is an input of it
  have hstep : ∀ {u v : Version} {d : Definition}, Makes s v d →
      (∀ i, d = .item i → v ∈ i.defines) → u ∈ d.inputs → Explicit s c u →
      (marks s c).has v → Traced s c u → Traced s c v := by
    rintro u v d hd hdefines hu hexp hv ⟨l, hl⟩
    by_cases hsource : v ∈ (initial s c).map (·.version)
    · exact ⟨[v], .stop hv (.inl hsource)⟩
    · refine ⟨v :: l, .step hv hsource ?_ hl⟩
      simp only [taintedInputs, definition?_eq hs hd hdefines, Option.map_some, Option.getD_some, mem_filter]
      exact ⟨hu, hexp.has⟩
  induction h with
  | source h => exact ⟨_, .stop (Explicit.source h).has (.inl (mem_initial.mpr h))⟩
  | assign hexp hb hi hclean hu hv ih =>
    exact hstep (.item hb hi (mem_writes_of_defines hv)) (fun _ hj => Definition.item.inj hj ▸ hv) hu
      hexp (hexp.assign hb hi hclean hu hv).has ih
  | phi hexp hb hf hu ih => exact hstep (.phi hb hf rfl) (by simp) hu hexp (hexp.phi hb hf hu).has ih

/-! ## Reports -/

def reports (s : Ssa) (c : Config) (i : RenamedItem) : List Found :=
  flowsInto s c (marks s c) ((initial s c).map (·.version)) i

theorem mem_reports (hsink : i.item.sink? c = some sink) : (∃ f, f ∈ reports s c i) ↔ ∃ v ∈ i.loads, Traced s c v := by
  simp only [reports, flowsInto, hsink, mem_flatMap]
  constructor
  · rintro ⟨f, v, hv, hf⟩
    refine ⟨v, hv, backward_ne_nil_iff.mp fun hnone => ?_⟩
    split at hf
    · simp at hf
    · simp [hnone] at hf
  · rintro ⟨v, hv, l, hl⟩
    have hhas : (marks s c).has v := by
      cases hl with
      | stop h _ => exact h
      | step h _ _ _ => exact h
    obtain ⟨path, hpath⟩ := exists_mem_of_ne_nil _ (backward_ne_nil_iff.mpr ⟨l, hl⟩)
    cases hm : (marks s c).find v with
    | none =>
      obtain ⟨m, hmem, heq⟩ := any_eq_true.mp hhas
      exact absurd heq (List.find?_eq_none.mp hm m hmem)
    | some m => exact ⟨_, v, hv, by simp only [hm]; exact mem_map_of_mem hpath⟩

theorem reports_analyzed {g : Graph} {b : SsaBlock}
    (hb : b ∈ (ofGraph g).blocks) (hi : i ∈ b.items) (hf : f ∈ reports (ofGraph g) c i) :
    f.flow ∈ analyze g c :=
  mem_map_of_mem (mem_flatMap.mpr ⟨b, hb, mem_flatMap.mpr ⟨i, hi, hf⟩⟩)

theorem reports_sink (hsink : i.item.sink? c = some sink) (hf : f ∈ reports s c i) :
    f.sink = sink ∧ f.span = i.item.node.loc?.map Span.ofLoc := by
  simp only [reports, flowsInto, hsink] at hf
  obtain ⟨v, -, hf⟩ := mem_flatMap.mp hf
  split at hf
  · simp at hf
  · obtain ⟨path, -, rfl⟩ := mem_map.mp hf
    exact ⟨rfl, rfl⟩

/-- A sink is reported exactly if the taint of something it loads can be traced back, as all taint can
that assignments and phis alone have handed on. -/
theorem sink_reported_iff (name : String) (root : Node) (c : Config) {b : SsaBlock}
    {i : RenamedItem} {sink : String} (hb : b ∈ (ofGraph (build name root)).blocks)
    (hi : i ∈ b.items) (hsink : i.item.sink? c = some sink) :
    ((∃ f ∈ analyze (build name root) c, ∃ r ∈ reports (ofGraph (build name root)) c i,
        f = r.flow ∧ f.sink = sink ∧ f.span = i.item.node.loc?.map Span.ofLoc) ↔
      ∃ v ∈ i.loads, Traced (ofGraph (build name root)) c v) ∧
    ∀ v, Explicit (ofGraph (build name root)) c v → Traced (ofGraph (build name root)) c v := by
  refine ⟨Iff.trans ?_ (mem_reports hsink), fun v hv => hv.traced (nodup_versions (build_wellFormed name root))⟩
  constructor
  · rintro ⟨_, -, r, hr, -⟩
    exact ⟨r, hr⟩
  · rintro ⟨r, hr⟩
    exact ⟨r.flow, reports_analyzed hb hi hr, r, hr, rfl, reports_sink hsink hr⟩

def inputToEval : Config := { sources := ["input"], sinks := ["eval"] }

def letter (line col : Nat) (x : String) (ctx : Context) : Expr := .name ⟨line, col, line, col + 1⟩ x ctx

/-- `input()` -/
def inputCall (line col : Nat) : Expr :=
  .call ⟨line, col, line, col + 7⟩ (.name ⟨line, col, line, col + 5⟩ "input" .load) [] []

/-- `eval(x)` -/
def evalCall (line col : Nat) (x : String) : Stmt :=
  .expr ⟨line, col, line, col + 7⟩ (.call ⟨line, col, line, col + 7⟩
    (.name ⟨line, col, line, col + 4⟩ "eval" .load) [letter line (col + 5) x .load] [])

/-- `c = input(); if c: x = 1; eval(x)` -/
def branching : Module where
  body := [ .assign ⟨1, 0, 1, 11⟩ [letter 1 0 "c" .store] (inputCall 1 4) none,
    .cond ⟨2, 0, 3, 9⟩ (letter 2 3 "c" .load)
      [.assign ⟨3, 4, 3, 9⟩ [letter 3 4 "x" .store] (.constant ⟨3, 8, 3, 9⟩ (.nat 1) none) none] [],
    evalCall 4 0 "x"]

/-- What the condition taints is traced to the constant. -/
theorem branch_traced : ∃ b ∈ (ofGraph (build "m" (.module branching))).blocks,
    ∃ i ∈ b.items, i.item.sink? inputToEval = some "eval" ∧
      ∃ v ∈ i.loads, Traced (ofGraph (build "m" (.module branching))) inputToEval v := by
  have hreport : ∃ b ∈ (ofGraph (build "m" (.module branching))).blocks, ∃ i ∈ b.items,
      i.item.sink? inputToEval = some "eval" ∧
        reports (ofGraph (build "m" (.module branching))) inputToEval i ≠ [] := by
    decide
  obtain ⟨b, hb, i, hi, hsink, hne⟩ := hreport
  obtain ⟨r, hr⟩ := List.exists_mem_of_ne_nil _ hne
  exact ⟨b, hb, i, hi, hsink, (sink_reported_iff "m" (.module branching) inputToEval hb hi
    hsink).1.mp ⟨r.flow, reports_analyzed hb hi hr, r, hr, rfl, reports_sink hsink hr⟩⟩

/-- `c = input(); x = 0; while c: x = x + 1; eval(x)` -/
def ticking : Module where
  body := [ .assign ⟨1, 0, 1, 11⟩ [letter 1 0 "c" .store] (inputCall 1 4) none,
    .assign ⟨2, 0, 2, 5⟩ [letter 2 0 "x" .store] (.constant ⟨2, 4, 2, 5⟩ (.nat 0) none) none,
    .whileLoop ⟨3, 0, 4, 13⟩ (letter 3 6 "c" .load) [.assign ⟨4, 4, 4, 13⟩ [letter 4 4 "x" .store]
        (.binOp ⟨4, 8, 4, 13⟩ (letter 4 8 "x" .load) .add (.constant ⟨4, 12, 4, 13⟩ (.nat 1) none)) none] [],
    evalCall 5 0 "x"]

/-- The sink loads a tainted version, and nothing is reported: the only ways back from the loop's
variable turn around in the loop. -/
theorem loop_counter_unreported : (∃ b ∈ (ofGraph (build "m" (.module ticking))).blocks, ∃ i ∈ b.items,
      i.item.sink? inputToEval = some "eval" ∧ ∃ v ∈ i.loads,
        (marks (ofGraph (build "m" (.module ticking))) inputToEval).has v) ∧
    analyze (build "m" (.module ticking)) inputToEval = [] := by
  decide

end SecScan.Taint
