import SecScan.Proofs.Taint.Tracing

/-!
Where the marks come from. A mark takes over the source of the mark that handed taint on to it, and
it is explicit only if that one is and no condition was needed (`Spread.advances_handOn`). Marks are
handed on in the order in which they were made, so a version is named after the source statement that
defines it, or else like the first version that hands taint on to it (`NamedAfter`). A flow has the
name of the version that its sink loads (`flow_named_after`); where two sources meet, this need not
be the source that its path starts from (`sum_named_once`).
-/

namespace SecScan.Flow.Item

open Syntax Taint List

theorem callAmong_eq_some {names : List String} {e : Expr} {f : String} :
    callAmong names e = some f ↔ e.callName? = some f ∧ f ∈ names := by
  simp [callAmong, Option.filter_eq_some_iff]

theorem mem_sources_of_source? {c : Config} {i : Item} {name : String}
    (h : i.source? c = some name) : name ∈ c.sources := by
  unfold source? at h
  split at h
  · exact (callAmong_eq_some.mp h).2
  · exact (callAmong_eq_some.mp h).2
  · simp at h

end SecScan.Flow.Item

namespace SecScan.Taint

open Syntax SecScan.Flow List

variable {s : Ssa} {c : Config} {u : Version} {n : Nat} {p : Spread} {m : Mark} {name' : String}
variable {v : Version} {order : List Version} {name : String}

/-! ## The order of the marks -/

/-- The first of the versions that hands taint on to `v` is `u`. -/
structure FirstToHand (s : Ssa) (c : Config) (order : List Version) (v u : Version) : Prop where
  hands : Hands s c u v
  first : ∃ l r, order = l ++ u :: r ∧ ∀ x ∈ l, ¬ Hands s c x v

/-- What holds after any number of steps that each hand on the mark that waits longest. -/
structure InOrder (s : Ssa) (c : Config) (p : Spread) : Prop where
  /-- The marks that wait are the latest. -/
  pending : ∃ done, p.marks = done ++ p.pending
  /-- A mark stems from a source statement, or from the first mark before it that hands taint on to
  it. -/
  stems : ∀ l m r, p.marks = l ++ m :: r → (SourceOf s c m.source m.version ∧ m.implicit = false) ∨
    ∃ n ∈ l, ¬ Begins s c m.version ∧ FirstToHand s c (l.map (·.version)) m.version n.version ∧ n.Inherits s c m

theorem FirstToHand.append
    (h : FirstToHand s c order v u) (new : List Version) : FirstToHand s c (order ++ new) v u := by
  obtain ⟨hhands, l, r, rfl, hfirst⟩ := h
  exact ⟨hhands, l, r ++ new, by simp, hfirst⟩

theorem inOrder_start (s : Ssa) (c : Config) : InOrder s c (Spread.start s c) := by
  have hstart : Spread.Advances s {} (Spread.start s c) _ := Spread.advances_start
  obtain ⟨ms, hmarks, hpending, hms⟩ := hstart.new
  simp only [nil_append] at hmarks hpending
  refine ⟨⟨[], by rw [hmarks, hpending, nil_append]⟩, fun l m r hsplit => .inl (hms m ?_)⟩
  rw [← hmarks, hsplit]
  simp

/-- What is marked now was not handed on by any of the marks that were served before. -/
theorem Served.Ok.not_hands (h : Served.Ok s c n p)
    {done : Marks} (hdone : p.marks = done ++ p.pending) (hv : ¬ p.marks.has v) :
    ∀ y ∈ done, ¬ Hands s c y.version v := by
  intro y hy hhands
  have hymem : y ∈ p.marks := by simp [hdone, hy]
  rcases h.hands y hymem with hwait | hall
  · have hdisjoint := h.valid.nodup
    rw [hdone, map_append] at hdisjoint
    exact (nodup_append.mp hdisjoint).2.2 _ (mem_map_of_mem hy) _ (mem_map_of_mem hwait) rfl
  · exact hv (hall _ hhands)

theorem InOrder.step (hserved : Served s c n p) (h : InOrder s c p) {rest : Marks} (hnext : p.pending = m :: rest) :
    InOrder s c ({ p with pending := rest }.handOn s c m) := by
  have hok := hserved.ok
  have hvalid : Spread.Valid s { p with pending := rest } := ⟨hok.valid.nodup, hok.valid.regions, hok.valid.controlled⟩
  have hstep := Spread.advances_handOn (c := c) hvalid m
  obtain ⟨ms, hmarks, hpending, hms⟩ := hstep.new
  obtain ⟨done, hdone⟩ := h.pending
  have hserve : p.marks = done ++ m :: rest := hnext ▸ hdone
  refine ⟨⟨done ++ [m], by rw [hmarks, hpending]; simp [hserve]⟩, fun l x r hsplit => ?_⟩
  have hnodup := hstep.valid.nodup
  rw [hmarks] at hsplit
  have hnew : ∀ l', l = p.marks ++ l' → x ∈ ms → ∃ n ∈ l, ¬ Begins s c x.version ∧
      FirstToHand s c (l.map (·.version)) x.version n.version ∧ n.Inherits s c x := by
    rintro l' rfl hx
    have hunmarked : ¬ p.marks.has x.version := fun hhas => by
      rw [hmarks, map_append] at hnodup
      exact (nodup_append.mp hnodup).2.2 _ (Marks.has_iff.mp hhas) _ (mem_map_of_mem hx) rfl
    refine ⟨m, by simp [hserve], fun hbegins => hunmarked (hok.source _ hbegins),
      ⟨(hms x hx).hands, done.map (·.version), (rest ++ l').map (·.version), by simp [hserve], ?_⟩,
      hms x hx⟩
    intro v hv
    obtain ⟨y, hy, rfl⟩ := mem_map.mp hv
    exact hok.not_hands hdone hunmarked y hy
  rcases append_eq_append_iff.mp hsplit with ⟨l', hl, hms'⟩ | ⟨r', hl, hms'⟩
  · exact .inr (hnew l' hl (by simp [hms']))
  · cases r' with
    | nil =>
      have hx : x ∈ ms := by
        rw [nil_append] at hms'
        simp [← hms']
      exact .inr (hnew [] (by simpa using hl.symm) hx)
    | cons y r' =>
      obtain ⟨rfl, -⟩ := cons.inj hms'
      exact h.stems l x r' hl

theorem inOrder_run (fuel : Nat) (hserved : Served s c n p) (h : InOrder s c p) : InOrder s c (p.run s c fuel) := by
  induction fuel generalizing n p with
  | zero => exact h
  | succ fuel ih =>
    unfold Spread.run
    split
    · exact h
    · rename_i m rest hpending
      exact ih (hserved.step (l := []) hpending) (h.step hserved hpending)

/-- What holds of marks that source statements make, and of a mark if it holds of the first one that
hands taint on to it, holds of all marks. -/
theorem marks_induction {P : Mark → Prop} (source : ∀ m, SourceOf s c m.source m.version → m.implicit = false → P m)
    (hand : ∀ m n, P n → ¬ Begins s c m.version →
      FirstToHand s c ((marks s c).map (·.version)) m.version n.version → n.Inherits s c m → P m) :
    ∀ m ∈ marks s c, P m := by
  have hstems := (inOrder_run s.versions.length .start (inOrder_start s c)).stems
  -- on the number of marks before the one in question
  have hbefore : ∀ k l m r, l.length = k → marks s c = l ++ m :: r → P m := by
    intro k
    induction k using Nat.strongRecOn with
    | ind k ih =>
      intro l m r hk hsplit
      rcases hstems l m r hsplit with ⟨hsource, hexp⟩ | ⟨n, hn, hbegins, hfirst, hinherits⟩
      · exact source m hsource hexp
      · obtain ⟨l₁, l₂, rfl⟩ := append_of_mem hn
        have hparent : P n := ih l₁.length (by simp [← hk]) l₁ n (l₂ ++ m :: r) rfl (by simpa using hsplit)
        refine hand m n hparent hbegins ?_ hinherits
        rw [hsplit, map_append]
        exact hfirst.append _
  intro m hm
  obtain ⟨l, r, hsplit⟩ := append_of_mem hm
  exact hbefore l.length l m r rfl hsplit

/-- A mark is explicit only if assignments and phis have brought the taint. -/
theorem explicit_of_mark (hm : m ∈ marks s c) (hexp : m.implicit = false) : Explicit s c m.version := by
  refine marks_induction (P := fun m => m.implicit = false → Explicit s c m.version) ?_ ?_ m hm hexp
  · intro m hsource _ _
    exact .source (begins_iff.mpr ⟨_, hsource⟩)
  · intro m n ih _ _ hinherits hexp
    obtain ⟨hexp, himp⟩ := hinherits.explicit hexp
    exact himp (ih hexp)

/-! ## Names of flows -/

/-- A version is named after the source that the statement defining it calls, or else like the first
of the versions, in the order in which taint reached them, that hands taint on to it. -/
inductive NamedAfter (s : Ssa) (c : Config) (order : List Version) : Version → String → Prop where
  | source {v : Version} {name : String} : SourceOf s c name v → NamedAfter s c order v name
  | first {u v : Version} {name : String} : ¬ Begins s c v → FirstToHand s c order v u →
      NamedAfter s c order u name → NamedAfter s c order v name

theorem SourceOf.unique (hs : s.versions.Nodup) (h : SourceOf s c name v) (h' : SourceOf s c name' v) :
    name = name' := by
  obtain ⟨b, hb, i, hi, hname, hv⟩ := h
  obtain ⟨b', hb', i', hi', hname', hv'⟩ := h'
  have hsame := Makes.unique hs (.item hb hi (mem_writes_of_defines hv)) (.item hb' hi' (mem_writes_of_defines hv'))
  rw [Definition.item.inj hsame] at hname
  exact Option.some.inj (hname.symm.trans hname')

theorem FirstToHand.unique {u' : Version}
    (h : FirstToHand s c order v u) (h' : FirstToHand s c order v u') : u = u' := by
  obtain ⟨hhands, l, r, rfl, hfirst⟩ := h
  obtain ⟨hhands', l', r', hsplit, hfirst'⟩ := h'
  rcases append_eq_append_iff.mp hsplit with ⟨k, rfl, hk⟩ | ⟨k, rfl, hk⟩
  · cases k with
    | nil => exact (cons.inj hk).1
    | cons x k =>
      obtain ⟨rfl, -⟩ := cons.inj hk
      exact absurd hhands (hfirst' u (by simp))
  · cases k with
    | nil => exact (cons.inj hk).1.symm
    | cons x k =>
      obtain ⟨rfl, -⟩ := cons.inj hk
      exact absurd hhands' (hfirst u' (by simp))

theorem NamedAfter.unique (hs : s.versions.Nodup) (h : NamedAfter s c order v name)
    (h' : NamedAfter s c order v name') : name = name' := by
  induction h with
  | source hsource =>
    cases h' with
    | source hsource' => exact hsource.unique hs hsource'
    | first hbegins => exact absurd (begins_iff.mpr ⟨_, hsource⟩) hbegins
  | first hbegins hfirst _ ih =>
    cases h' with
    | source hsource' => exact absurd (begins_iff.mpr ⟨_, hsource'⟩) hbegins
    | first _ hfirst' h' => exact ih (hfirst.unique hfirst' ▸ h')

/-- Taint of the named source reaches the version, without passing another source statement. -/
inductive Origin (s : Ssa) (c : Config) (name : String) : Version → Prop where
  | source {v : Version} : SourceOf s c name v → Origin s c name v
  | hands {u v : Version} : Origin s c name u → ¬ Begins s c v → Hands s c u v → Origin s c name v

theorem NamedAfter.origin (h : NamedAfter s c order v name) : Origin s c name v := by
  induction h with
  | source hsource => exact .source hsource
  | first hbegins hfirst _ ih => exact .hands ih hbegins hfirst.hands

theorem named_of_mark (hm : m ∈ marks s c) : NamedAfter s c ((marks s c).map (·.version)) m.version m.source := by
  refine marks_induction (P := fun m => NamedAfter s c ((marks s c).map (·.version)) m.version m.source) ?_ ?_ m hm
  · intro m hsource _
    exact .source hsource
  · intro m n ih hbegins hfirst hinherits
    exact .first hbegins hfirst (hinherits.source ▸ ih)

theorem Way.head? {ms : Marks} {sources : List Version} {l : List Version}
    (h : Way s ms sources v l) : l.head? = some v := by
  cases h <;> rfl

/-- What a flow reports: a version that a sink statement loads, the source of its mark, and a way back
from it. -/
structure Found.Reports (f : Found) (s : Ssa) (c : Config) (v : Version) : Prop where
  sink : ∃ b ∈ s.blocks, ∃ i ∈ b.items, i.item.sink? c = some f.sink ∧
    f.span = i.item.node.loc?.map Span.ofLoc ∧ v ∈ i.loads
  mark : ∃ m ∈ marks s c, m.version = v ∧ m.source = f.source
  way : ∃ l, Way s (marks s c) ((initial s c).map (·.version)) v l ∧ l.Nodup ∧ f.path = l.reverse
  implicit : f.implicit = f.path.any fun x => ((marks s c).find x).any (·.implicit)

theorem exists_reports {f : Found} (hf : f ∈ flows s c) : ∃ v, f.Reports s c v := by
  obtain ⟨b, hb, hf⟩ := mem_flatMap.mp hf
  obtain ⟨i, hi, hf⟩ := mem_flatMap.mp hf
  unfold flowsInto at hf
  split at hf
  · simp at hf
  · rename_i sink hsink
    obtain ⟨v, hv, hf⟩ := mem_flatMap.mp hf
    split at hf
    · simp at hf
    · rename_i m hm
      obtain ⟨path, hpath, rfl⟩ := mem_map.mp hf
      obtain ⟨l, hl, hnodup, -, -, rfl⟩ := mem_backward.mp hpath
      exact ⟨v, ⟨b, hb, i, hi, hsink, rfl, hv⟩,
        ⟨m, mem_of_find?_eq_some hm, by simpa using find?_some hm, rfl⟩,
        ⟨l, hl, hnodup, by simp⟩, rfl⟩

/-- A flow has the name of the version that the sink loads. It is the source that its path starts
from, if taint of no other source reaches that version. -/
theorem flow_named_after (name : String) (root : Node) (c : Config) {f : Flow}
    (hf : f ∈ analyze (Graph.build name root) c) :
    ∃ path : List Version, f.path = path.map (·.text) ∧ ∃ v, path.getLast? = some v ∧
      (∀ source, f.source = source ↔ NamedAfter (Ssa.ofGraph (Graph.build name root)) c
        ((marks (Ssa.ofGraph (Graph.build name root)) c).map (·.version)) v source) ∧
      ∀ p source, path.head? = some p → SourceOf (Ssa.ofGraph (Graph.build name root)) c source p →
        (∀ other, Origin (Ssa.ofGraph (Graph.build name root)) c other v → other = source) →
        f.source = source := by
  obtain ⟨r, hr, rfl⟩ := List.mem_map.mp hf
  obtain ⟨v, hreports⟩ := exists_reports hr
  obtain ⟨m, hm, rfl, hsource⟩ := hreports.mark
  obtain ⟨l, hl, -, hpath⟩ := hreports.way
  have hs := nodup_versions (build_wellFormed name root)
  have hnamed := named_of_mark hm
  rw [hsource] at hnamed
  refine ⟨r.path, rfl, m.version, ?_, fun source => ⟨?_, hnamed.unique hs⟩,
    fun p source _ _ honly => honly _ hnamed.origin⟩
  · rw [hpath, List.getLast?_reverse]
    exact hl.head?
  · rintro rfl
    exact hnamed

/-- `x = input(); y = getenv(); z = x + y; eval(z)` -/
def adding : Module where
  body := [ .assign ⟨1, 0, 1, 11⟩ [letter 1 0 "x" .store] (inputCall 1 4) none,
    .assign ⟨2, 0, 2, 12⟩ [letter 2 0 "y" .store] (.call ⟨2, 4, 2, 12⟩ (.name ⟨2, 4, 2, 10⟩ "getenv" .load) [] []) none,
    .assign ⟨3, 0, 3, 9⟩ [letter 3 0 "z" .store]
      (.binOp ⟨3, 4, 3, 9⟩ (letter 3 4 "x" .load) .add (letter 3 8 "y" .load)) none,
    evalCall 4 0 "z"]

/-- With one source to name, the flow has the name that its path starts from. -/
theorem sum_named_after_input : ∃ f ∈ analyze (Graph.build "m" (.module adding)) inputToEval, f.path = ["x_1", "z_1"] ∧
      SourceOf (Ssa.ofGraph (Graph.build "m" (.module adding))) inputToEval "input" (.made "x" 1) ∧
      (∀ other, Origin (Ssa.ofGraph (Graph.build "m" (.module adding))) inputToEval other
        (.made "z" 1) → other = "input") ∧
      f.source = "input" := by
  have hflow : ∃ f ∈ analyze (Graph.build "m" (.module adding)) inputToEval,
      f.path = ["x_1", "z_1"] := by decide
  have hsource : SourceOf (Ssa.ofGraph (Graph.build "m" (.module adding))) inputToEval "input" (.made "x" 1) := by
    unfold SourceOf
    decide
  have honly : ∀ other v, Origin (Ssa.ofGraph (Graph.build "m" (.module adding))) inputToEval other v →
      other = "input" := by
    intro other v h
    induction h with
    | source h =>
      obtain ⟨b, -, i, -, hname, -⟩ := h
      simpa [inputToEval] using Item.mem_sources_of_source? hname
    | hands _ _ _ ih => exact ih
  obtain ⟨f, hf, htexts⟩ := hflow
  obtain ⟨path, hpath, v, -, -, hnamed⟩ := flow_named_after _ _ _ hf
  have hversions : path = [.made "x" 1, .made "z" 1] :=
    List.map_injective_iff.mpr Version.text_injective (hpath.symm.trans htexts)
  exact ⟨f, hf, htexts, hsource, fun other => honly other _,
    hnamed (.made "x" 1) "input" (by simp [hversions]) hsource fun other => honly other _⟩

def bothToEval : Config := { sources := ["input", "getenv"], sinks := ["eval"] }

/-- With two sources, the flow that starts from the second is reported under the name of the first. -/
theorem sum_named_once : ∃ f ∈ analyze (Graph.build "m" (.module adding)) bothToEval, f.path = ["y_1", "z_1"] ∧
      SourceOf (Ssa.ofGraph (Graph.build "m" (.module adding))) bothToEval "getenv" (.made "y" 1) ∧
      ¬ SourceOf (Ssa.ofGraph (Graph.build "m" (.module adding))) bothToEval "input" (.made "y" 1) ∧
      f.source = "input" := by
  unfold SourceOf
  decide

end SecScan.Taint
