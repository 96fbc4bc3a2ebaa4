import SecScan.Proofs.Ir.References

/-!
Control flow between bodies. A statement stands in the body of the innermost module, function or
class around it (`Graph.Inside`), and in no other (`Graph.Inside.unique`). Control flows between
statements whose bodies have one name, so it stays in one body where all bodies are told apart by
their names (`flow_between_namesakes`). Bodies of the same name are not kept apart: control flows from
a method to a method of that name in another class (`flow_between_methods`).
-/

namespace SecScan.Ir

open List

open Syntax (Module)

namespace Graph

variable {ρ : Type} {g : Graph ρ}

/-- What stands directly below `p` belongs to the body of `o`. -/
inductive Body (g : Graph ρ) : Node ρ → Node ρ → Prop where
  | opens {p : Node ρ} : p ∈ g.nodes → isBody p.kind = true → Body g p p
  | inner {p q o : Node ρ} : p ∈ g.nodes → isBody p.kind = false → p.parent = some q.id → Body g q o → Body g p o

def Inside (g : Graph ρ) (r : ρ) (o : Node ρ) : Prop := ∃ n ∈ g.nodes, n.id = r ∧ ∃ p, n.parent = some p.id ∧ g.Body p o

/-- No two bodies have one name. -/
def BodiesNamed (g : Graph ρ) : Prop :=
  ∀ o ∈ g.nodes, ∀ o' ∈ g.nodes, isBody o.kind = true → isBody o'.kind = true → o.bodyName = o'.bodyName → o = o'

theorem Body.mem {p o : Node ρ} (h : g.Body p o) : p ∈ g.nodes := by
  cases h with
  | opens hp _ => exact hp
  | inner hp _ _ _ => exact hp

theorem Body.owner {p o : Node ρ} (h : g.Body p o) : o ∈ g.nodes ∧ isBody o.kind = true := by
  induction h with
  | opens hp hkind => exact ⟨hp, hkind⟩
  | inner _ _ _ _ ih => exact ih

theorem Body.unique (hg : (g.nodes.map (·.id)).Nodup) {p o o' : Node ρ} (h : g.Body p o)
    (h' : g.Body p o') : o = o' := by
  induction h with
  | opens _ hkind =>
    cases h' with
    | opens => rfl
    | inner _ hkind' => simp [hkind] at hkind'
  | inner _ hkind hparent hbody ih =>
    cases h' with
    | opens _ hkind' => simp [hkind] at hkind'
    | inner _ _ hparent' hbody' =>
      have hid := Option.some.inj (hparent.symm.trans hparent')
      obtain rfl := inj_on_of_nodup_map hg hbody.mem hbody'.mem hid
      exact ih hbody'

theorem exists_inside {r s : ρ} (h : ∃ o ∈ g.nodes, o.id = s ∧ isBody o.kind = true ∧
    ∃ n ∈ g.nodes, n.id = r ∧ n.parent = some o.id) : ∃ o, g.Inside r o ∧ o.id = s := by
  obtain ⟨o, ho, hid, hkind, n, hn, hr, hparent⟩ := h
  exact ⟨o, ⟨n, hn, hr, o, hparent, .opens ho hkind⟩, hid⟩

theorem Inside.owner {r : ρ} {o : Node ρ} (h : g.Inside r o) : o ∈ g.nodes ∧ isBody o.kind = true := by
  obtain ⟨_, _, _, _, _, hbody⟩ := h
  exact hbody.owner

theorem Inside.unique (hg : (g.nodes.map (·.id)).Nodup) {r : ρ} {o o' : Node ρ} (h : g.Inside r o)
    (h' : g.Inside r o') : o = o' := by
  obtain ⟨n, hn, hid, p, hp, hbody⟩ := h
  obtain ⟨n', hn', hid', p', hp', hbody'⟩ := h'
  obtain rfl := inj_on_of_nodup_map hg hn hn' (hid.trans hid'.symm)
  have hsame := Option.some.inj (hp.symm.trans hp')
  obtain rfl := inj_on_of_nodup_map hg hbody.mem hbody'.mem hsame
  exact hbody.unique hg hbody'

end Graph

namespace Draft

variable {d : Draft} {f : Nat → String} {g : Graph String}

theorem Shows.body (h : d.Shows f g) {p o : Nat} (hbody : d.Body p o) :
    ∃ p' o', g.nodes[p]? = some p' ∧ g.nodes[o]? = some o' ∧ g.Body p' o' := by
  induction hbody with
  | opens hs hkind =>
    obtain ⟨n, hn, rfl, -⟩ := hs
    obtain ⟨n', hn', hshows⟩ := h.node hn
    exact ⟨n', n', hn', hn', .opens (mem_of_getElem? hn') (hshows.kind ▸ hkind)⟩
  | inner hs hkind _ ih =>
    obtain ⟨n, hn, rfl, hparent, -⟩ := hs
    obtain ⟨n', hn', hshows⟩ := h.node hn
    obtain ⟨q', o', hq', ho', hbody'⟩ := ih
    obtain ⟨m, -, hshows'⟩ := h.origin hq'
    refine ⟨n', o', hn', ho', .inner (mem_of_getElem? hn') (hshows.kind ▸ hkind) ?_ hbody'⟩
    rw [hshows.parent, hparent, hshows'.id]
    rfl

/-- The scope of a body is named after it. -/
theorem Shows.inside (h : d.Shows f g) (hd : d.Sound) {i : Nat} {scope : String} (hi : d.Within i scope) :
    ∃ o name, g.Inside (f i) o ∧ o.bodyName = some name ∧ scope = "scope:" ++ name := by
  obtain ⟨p, ⟨_, _, n, hn, -, hparent, -⟩, o, _, _, hbody, c, hc, -, -, rfl⟩ := hi
  obtain ⟨p', o', hp', ho', hbody'⟩ := h.body hbody
  obtain ⟨n', hn', hshows⟩ := h.node hn
  obtain ⟨m, -, hshowsParent⟩ := h.origin hp'
  obtain ⟨c', hc', hshowsOwner⟩ := h.origin ho'
  obtain rfl : c' = c := Option.some.inj (hc'.symm.trans hc)
  obtain ⟨name, hscope, hname⟩ := (hd.node hc).named (hshowsOwner.kind ▸ hbody'.owner.2)
  refine ⟨o', name, ⟨n', mem_of_getElem? hn', hshows.id, p', ?_, hbody'⟩, ?_, hscope⟩
  · rw [hshows.parent, hparent, hshowsParent.id]
    rfl
  · rw [hshowsOwner.bodyName, hname]

end Draft

/-- Control flows between two statements whose bodies have the same name, so between statements of
one body if bodies are told apart by their names. -/
theorem flow_between_namesakes {s : Settings} {yaml : String → Embedded.YamlResult} {file : String}
    {m : Module} {g : Graph String} (h : parse s yaml file m = .ok g) {e : Edge String}
    (he : e ∈ g.edges) (hflow : e.kind = "flow") :
    ∃ o o', (∀ x, g.Inside e.source x ↔ x = o) ∧ (∀ x, g.Inside e.target x ↔ x = o') ∧
      o.bodyName = o'.bodyName ∧ (g.BodiesNamed → o = o') := by
  obtain ⟨d, f, hsound, -, hshows⟩ := parse_shows h
  have hdistinct := hshows.distinct
  rw [hshows.edges] at he
  obtain ⟨e, hmem, rfl⟩ := mem_map.mp he
  obtain ⟨scope, hsource, htarget⟩ := (hsound.edge e (Array.mem_toList_iff.mp hmem)).flow hflow
  obtain ⟨o, name, ho, hname, hscope⟩ := hshows.inside hsound hsource
  obtain ⟨o', name', ho', hname', hscope'⟩ := hshows.inside hsound htarget
  have hsame : name = name' := by simpa using hscope.symm.trans hscope'
  have hnames : o.bodyName = o'.bodyName := by rw [hname, hname', hsame]
  refine ⟨o, o', fun x => ⟨fun hx => hx.unique hdistinct ho, fun hx => hx ▸ ho⟩,
    fun x => ⟨fun hx => hx.unique hdistinct ho', fun hx => hx ▸ ho'⟩, hnames, fun hg => ?_⟩
  exact hg o ho.owner.1 o' ho'.owner.1 ho.owner.2 ho'.owner.2 hnames

/-- Two classes, each with a method `run`. -/
def jobs : Module where
  body := [ .classDef ⟨1, 0, 3, 11⟩ "A" [] [] [
      .funcDef ⟨2, 4, 3, 11⟩ false "run" (.mk [] [.mk ⟨2, 12, 2, 16⟩ "self" none none] none [] [] none [])
        [.expr ⟨3, 8, 3, 11⟩ (.call ⟨3, 8, 3, 11⟩ (.name ⟨3, 8, 3, 9⟩ "a" .load) [] [])] [] none none] [],
    .classDef ⟨4, 0, 6, 11⟩ "B" [] [] [
      .funcDef ⟨5, 4, 6, 11⟩ false "run" (.mk [] [.mk ⟨5, 12, 5, 16⟩ "self" none none] none [] [] none [])
        [.expr ⟨6, 8, 6, 11⟩ (.call ⟨6, 8, 6, 11⟩ (.name ⟨6, 8, 6, 9⟩ "b" .load) [] [])] [] none none] []]

/-- The graph of the two classes has an edge between their methods. -/
theorem exists_jobs : ∃ g, parse {} (fun _ => .scalar) "m.py" jobs = .ok g ∧
    ⟨"Call:m.py:3:8:4", "Call:m.py:6:8:8", "flow", none⟩ ∈ g.edges ∧
    (∃ o ∈ g.nodes, o.id = "Function:m.py:2:4:2" ∧ isBody o.kind = true ∧
      ∃ n ∈ g.nodes, n.id = "Call:m.py:3:8:4" ∧ n.parent = some o.id) ∧
    (∃ o ∈ g.nodes, o.id = "Function:m.py:5:4:6" ∧ isBody o.kind = true ∧
      ∃ n ∈ g.nodes, n.id = "Call:m.py:6:8:8" ∧ n.parent = some o.id) :=
  exists_ok (by decide +kernel)

theorem flow_between_jobs : ∃ g e, parse {} (fun _ => .scalar) "m.py" jobs = .ok g ∧ e ∈ g.edges ∧
    e.kind = "flow" ∧ ∃ o o', (∀ x, g.Inside e.source x ↔ x = o) ∧
      (∀ x, g.Inside e.target x ↔ x = o') ∧ o.bodyName = o'.bodyName ∧ (g.BodiesNamed → o = o') := by
  obtain ⟨g, hparse, hedge, -⟩ := exists_jobs
  exact ⟨g, _, hparse, hedge, rfl, flow_between_namesakes hparse hedge rfl⟩

/-- Control flows from the method of one class to the method of the other. -/
theorem flow_between_methods : ∃ g e, parse {} (fun _ => .scalar) "m.py" jobs = .ok g ∧ e ∈ g.edges ∧
    e.kind = "flow" ∧ ¬ ∃ o, g.Inside e.source o ∧ g.Inside e.target o := by
  obtain ⟨g, hparse, hedge, hsource, htarget⟩ := exists_jobs
  refine ⟨g, _, hparse, hedge, rfl, ?_⟩
  rintro ⟨o, ho, ho'⟩
  obtain ⟨d, f, -, -, hshows⟩ := parse_shows hparse
  have hdistinct := hshows.distinct
  obtain ⟨a, ha, hid⟩ := Graph.exists_inside hsource
  obtain ⟨b, hb, hid'⟩ := Graph.exists_inside htarget
  obtain rfl := ha.unique hdistinct ho
  obtain rfl := hb.unique hdistinct ho'
  exact absurd (hid.symm.trans hid') (by decide)

end SecScan.Ir
