import SecScan.Calls.Summary
import Mathlib.Data.Set.Finite.List
import Mathlib.Logic.Relation

/-!
Summaries collect the effects of what a function can call. Where calls form no circle some function that is left calls
none of the others, so there is an order of the functions in which what is called comes first (`calleesFirst_order`).
Along any such order a summary has the effects of its function and of all that it reaches through functions that have a
signature, and nothing is added twice (`summaries_collect`).
-/

namespace SecScan.Calls

open List

variable {g : Graph} {l order : List String} {sigs : List Signature} {f : String}
  {done : List (String × Signature)}

/-- No function calls itself through others. -/
def Acyclic (g : Graph) : Prop := ∀ f, ¬ Relation.TransGen (fun a b => b ∈ g.callees a) f f

/-- An order of the functions named in which what is called comes before what calls it. -/
structure CalleesFirst (g : Graph) (names order : List String) : Prop where
  mem : ∀ f, f ∈ order ↔ f ∈ names
  callees : ∀ l f r, order = l ++ f :: r → ∀ c ∈ g.callees f, c ∈ names → c ∈ l

def signatureOf (sigs : List Signature) (f : String) : Option Signature := sigs.find? (·.name == f)

def CallsSigned (g : Graph) (sigs : List Signature) (f c : String) : Prop :=
  c ∈ g.callees f ∧ c ∈ g.names ∧ ∃ s, signatureOf sigs c = some s

/-- The second list is the first with new elements after it, none of them twice. -/
def Enlarges (old new : List String) : Prop := ∃ more, new = old ++ more ∧ more.Nodup ∧ ∀ e ∈ more, e ∉ old

/-- A summary enlarges the effects of the function's signature to those of all signatures it reaches. -/
structure Collects (g : Graph) (sigs : List Signature) (f : String) (s t : Signature) : Prop where
  effects : ∀ e, e ∈ t.sideEffects ↔ ∃ n u, Relation.ReflTransGen (CallsSigned g sigs) f n ∧
    signatureOf sigs n = some u ∧ e ∈ u.sideEffects
  enlarges : Enlarges s.sideEffects t.sideEffects

/-- Of the functions named, those with a signature and no others have a summary. -/
structure Summarized (g : Graph) (sigs : List Signature) (names : List String)
    (done : List (String × Signature)) : Prop where
  signed : ∀ f ∈ names, ∀ s, signatureOf sigs f = some s → ∃ t, done.lookup f = some t ∧ Collects g sigs f s t
  unsigned : ∀ f, f ∉ names ∨ signatureOf sigs f = none → done.lookup f = none

/-! ## Orders -/

theorem acyclic_of_rank (rank : String → Nat) (h : ∀ e ∈ g.edges, rank e.callee < rank e.caller) : Acyclic g := by
  have hstep : ∀ a b, b ∈ g.callees a → rank b < rank a := by
    intro a b hb
    obtain ⟨e, he, rfl⟩ := mem_map.mp hb
    obtain ⟨he, hcaller⟩ := mem_filter.mp he
    exact beq_iff_eq.mp hcaller ▸ h e he
  intro f hf
  have hlt : ∀ b, Relation.TransGen (fun a b => b ∈ g.callees a) f b → rank b < rank f := by
    intro b hb
    induction hb with
    | single hb => exact hstep _ _ hb
    | tail _ hc ih => exact (hstep _ _ hc).trans ih
  exact Nat.lt_irrefl _ (hlt f hf)

/-- Of finitely many functions one calls none of the others. -/
theorem Acyclic.exists_ready (hg : Acyclic g) {rest : List String} (hne : rest ≠ []) :
    ∃ f ∈ rest, ∀ c ∈ g.callees f, c ∉ rest := by
  have : Finite { f // f ∈ rest } := (finite_toSet rest).to_subtype
  let below (a b : { f // f ∈ rest }) : Prop := Relation.TransGen (fun a b => b ∈ g.callees a) b.1 a.1
  have htrans : IsTrans _ below := ⟨fun _ _ _ hab hbc => hbc.trans hab⟩
  have hirrefl : Std.Irrefl below := ⟨fun a => hg a.1⟩
  obtain ⟨f, hf⟩ := exists_mem_of_ne_nil rest hne
  obtain ⟨m, -, hmin⟩ := (Finite.wellFounded_of_trans_of_irrefl below).has_min Set.univ ⟨⟨f, hf⟩, trivial⟩
  exact ⟨m.1, m.2, fun c hc hrest => hmin ⟨c, hrest⟩ trivial (.single hc)⟩

/-- What calls nothing that is left comes first. -/
theorem CalleesFirst.append_ready {names ready : List String}
    (hready : ∀ f, f ∈ ready ↔ f ∈ names ∧ ∀ c ∈ g.callees f, c ∉ names)
    (h : CalleesFirst g (names.filter (!ready.contains ·)) order) : CalleesFirst g names (ready ++ order) where
  mem f := by
    rw [mem_append, h.mem, mem_filter]
    have hsub : f ∈ ready → f ∈ names := fun hf => ((hready f).mp hf).1
    by_cases hf : f ∈ ready <;> simp [hf, hsub]
  callees l f r hl c hc hname := by
    have hother : ∀ l', order = l' ++ f :: r → c ∈ ready ++ l' := by
      intro l' hl'
      rw [mem_append]
      by_cases hcr : c ∈ ready
      · exact .inl hcr
      · exact .inr (h.callees l' f r hl' c hc (mem_filter.mpr ⟨hname, by simpa using hcr⟩))
    rcases append_eq_append_iff.mp hl with ⟨l', rfl, hl'⟩ | ⟨ready', rfl, hr⟩
    · exact hother l' hl'
    · cases ready' with
      | nil => simpa using hother [] hr.symm
      | cons x xs =>
        obtain ⟨rfl, -⟩ := List.cons.inj hr
        exact absurd hname (((hready f).mp (by simp)).2 c hc)

theorem calleesFirst_some (hg : Acyclic g) (n : Nat) (names : List String) (hn : names.length ≤ n) :
    ∃ order, calleesFirst g n names = some order ∧ CalleesFirst g names order := by
  fun_induction calleesFirst g n names with
  | case1 => exact ⟨[], rfl, by simp, by simp⟩
  | case2 f fs => exact absurd hn (by simp)
  | case3 n f fs rest ready hnone =>
    obtain ⟨m, hm, hcallees⟩ := hg.exists_ready (show rest ≠ [] by simp [rest])
    have hmem : m ∈ ready := mem_filter.mpr ⟨hm, by simpa using hcallees⟩
    exact absurd hnone (by simpa using ne_nil_of_mem hmem)
  | case4 n f fs rest ready hsome ih =>
    have hready : ∀ f, f ∈ ready ↔ f ∈ rest ∧ ∀ c ∈ g.callees f, c ∉ rest := by simp [ready]
    obtain ⟨m, hm⟩ := exists_mem_of_ne_nil ready (by simpa using hsome)
    have hlt : (rest.filter (!ready.contains ·)).length < rest.length :=
      length_filter_lt_length_iff_exists.mpr ⟨m, ((hready m).mp hm).1, by simpa using hm⟩
    obtain ⟨order, horder, hfirst⟩ := ih (Nat.le_of_lt_succ (hlt.trans_le hn))
    exact ⟨ready ++ order, by rw [horder]; rfl, hfirst.append_ready hready⟩

theorem calleesFirst_order (hg : Acyclic g) : CalleesFirst g g.names g.order := by
  obtain ⟨order, horder, hfirst⟩ := calleesFirst_some hg _ g.names le_rfl
  rwa [Graph.order, horder, Option.getD_some]

/-! ## Effects -/

theorem Enlarges.refl (l : List String) : Enlarges l l := ⟨[], by simp, by simp, by simp⟩

theorem Enlarges.trans {a b c : List String} (h₁ : Enlarges a b) (h₂ : Enlarges b c) : Enlarges a c := by
  obtain ⟨x, rfl, hx, hxa⟩ := h₁
  obtain ⟨y, rfl, hy, hyb⟩ := h₂
  refine ⟨x ++ y, append_assoc .., ?_, ?_⟩
  · exact nodup_append'.mpr ⟨hx, hy, fun e hex hey => hyb e hey (mem_append_right _ hex)⟩
  · intro e he hea
    rcases mem_append.mp he with hex | hey
    · exact hxa e hex hea
    · exact hyb e hey (mem_append_left _ hea)

theorem enlarges_addEffects (old new : List String) :
    Enlarges old (addEffects old new) ∧ ∀ e, e ∈ addEffects old new ↔ e ∈ old ∨ e ∈ new := by
  induction new generalizing old with
  | nil => exact ⟨.refl old, by simp [addEffects]⟩
  | cons x new ih =>
    rw [addEffects, foldl_cons, ← addEffects]
    split
    · rename_i hx
      obtain ⟨henlarges, hmem⟩ := ih old
      refine ⟨henlarges, fun e => ?_⟩
      rw [hmem, mem_cons]
      have hx : x ∈ old := by simpa using hx
      constructor <;> grind
    · rename_i hx
      obtain ⟨henlarges, hmem⟩ := ih (old ++ [x])
      refine ⟨Enlarges.trans ⟨[x], rfl, by simp, by simpa using hx⟩ henlarges, fun e => ?_⟩
      rw [hmem, mem_append, mem_singleton, mem_cons, or_assoc]

theorem effects_summarizeOne (g : Graph) (done : List (String × Signature)) (s : Signature) :
    Enlarges s.sideEffects (summarizeOne g done s).sideEffects ∧ ∀ e, e ∈ (summarizeOne g done s).sideEffects ↔
        e ∈ s.sideEffects ∨ ∃ c ∈ g.callees s.name, ∃ t, done.lookup c = some t ∧ e ∈ t.sideEffects := by
  rw [summarizeOne]
  generalize g.callees s.name = cs
  induction cs generalizing s with
  | nil => exact ⟨.refl _, by simp⟩
  | cons c cs ih =>
    rw [foldl_cons]
    cases hc : done.lookup c with
    | none =>
      obtain ⟨henlarges, hmem⟩ := ih s
      simpa [hc] using And.intro henlarges hmem
    | some t =>
      obtain ⟨hadd, hmemadd⟩ := enlarges_addEffects s.sideEffects t.sideEffects
      obtain ⟨henlarges, hmem⟩ := ih { s with sideEffects := addEffects s.sideEffects t.sideEffects }
      refine ⟨hadd.trans henlarges, fun e => (hmem e).trans ?_⟩
      simp [hmemadd, hc, or_assoc]

/-! ## Summaries -/

/-- A function is summarized after all that it calls. -/
theorem Summarized.collects {r : List String} (h : Summarized g sigs l done) (horder : CalleesFirst g g.names order)
    (hl : order = l ++ f :: r) {s : Signature} (hs : signatureOf sigs f = some s) :
    Collects g sigs f s (summarizeOne g done s) := by
  obtain ⟨henlarges, hmem⟩ := effects_summarizeOne g done s
  have hname : s.name = f := by simpa using List.find?_some hs
  refine ⟨fun e => (hmem e).trans ?_, henlarges⟩
  rw [hname]
  constructor
  · rintro (he | ⟨c, hc, t, ht, he⟩)
    · exact ⟨f, s, .refl, hs, he⟩
    · have hcl : c ∈ l := by
        by_contra hcl
        simp [h.unsigned c (.inl hcl)] at ht
      obtain ⟨u, hu⟩ : ∃ u, signatureOf sigs c = some u := by
        refine Option.ne_none_iff_exists'.mp fun hu => ?_
        simp [h.unsigned c (.inr hu)] at ht
      obtain ⟨t', ht', hcollects⟩ := h.signed c hcl u hu
      obtain rfl := Option.some.inj (ht.symm.trans ht')
      obtain ⟨n, v, hreach, hv, hev⟩ := (hcollects.effects e).mp he
      have hnode : c ∈ g.names := (horder.mem c).mp (hl ▸ mem_append_left _ hcl)
      exact ⟨n, v, .head ⟨hc, hnode, u, hu⟩ hreach, hv, hev⟩
  · rintro ⟨n, v, hreach, hv, hev⟩
    rcases hreach.cases_head with rfl | ⟨c, ⟨hc, hnode, u, hu⟩, hreach⟩
    · exact .inl (Option.some.inj (hs.symm.trans hv) ▸ hev)
    · obtain ⟨t, ht, hcollects⟩ := h.signed c (horder.callees l f r hl c hc hnode) u hu
      exact .inr ⟨c, hc, t, ht, (hcollects.effects e).mpr ⟨n, v, hreach, hv, hev⟩⟩

theorem Summarized.skip (h : Summarized g sigs l done) (hf : signatureOf sigs f = none) :
    Summarized g sigs (l ++ [f]) done where
  signed x hx s hs := by
    have hne : x ≠ f := fun heq => by simp [heq, hf] at hs
    exact h.signed x (by simpa [hne] using hx) s hs
  unsigned x hx := h.unsigned x (hx.imp_left fun hx hl => hx (mem_append_left _ hl))

theorem Summarized.add {s t : Signature} (h : Summarized g sigs l done) (hs : signatureOf sigs f = some s)
    (ht : Collects g sigs f s t) : Summarized g sigs (l ++ [f]) (done ++ [(f, t)]) where
  signed x hx u hu := by
    by_cases hl : x ∈ l
    · obtain ⟨v, hv, hcollects⟩ := h.signed x hl u hu
      exact ⟨v, by rw [lookup_append, hv, Option.some_or], hcollects⟩
    · obtain rfl : x = f := by simpa [hl] using hx
      obtain rfl := Option.some.inj (hs.symm.trans hu)
      refine ⟨t, ?_, ht⟩
      rw [lookup_append, h.unsigned x (.inl hl), Option.none_or]
      simp
  unsigned x hx := by
    have hne : (x == f) = false := by
      rw [beq_eq_false_iff_ne]
      rintro rfl
      simp [hs] at hx
    have hnone := h.unsigned x (hx.imp_left fun hx hl => hx (mem_append_left _ hl))
    simp [lookup_append, hnone, lookup_cons, hne]

theorem CalleesFirst.summarized (horder : CalleesFirst g g.names order)
    (sigs : List Signature) {r : List String} (hl : order = l ++ r) :
    Summarized g sigs l (summarizeAll g sigs l) := by
  -- induction from the end: the functions before the last are summarized
  induction l using List.reverseRecOn generalizing r with
  | nil => exact ⟨by simp, fun _ _ => rfl⟩
  | append_singleton l f ih =>
    have hl : order = l ++ f :: r := by simpa using hl
    have hdone := ih hl
    rw [summarizeAll, foldl_concat, ← summarizeAll]
    split
    · rename_i s hs
      exact hdone.add hs (hdone.collects horder hl hs)
    · rename_i hs
      exact hdone.skip hs

theorem summaries_collect (g : Graph) (sigs : List Signature) (hg : Acyclic g) :
    Summarized g sigs g.names (summaries g sigs) ∧
      ∀ order, CalleesFirst g g.names order → Summarized g sigs g.names (summarizeAll g sigs order) := by
  have hall : ∀ order, CalleesFirst g g.names order → Summarized g sigs g.names (summarizeAll g sigs order) := by
    intro order horder
    have h := horder.summarized sigs (List.append_nil order).symm
    exact ⟨fun f hf => h.signed f ((horder.mem f).mpr hf), fun f hf => h.unsigned f (by rwa [horder.mem])⟩
  exact ⟨hall g.order (calleesFirst_order hg), hall⟩

/-- Two ways lead to the last function; on one of them there is no signature. -/
def diamond : Graph :=
  [("main", "get"), ("main", "put"), ("get", "io"), ("put", "io")].foldl
    (fun g e => g.addEdge { caller := e.1, callee := e.2, kind := .direct }) {}

def diamondSignatures : List Signature :=
  [("main", ["io:open"]), ("put", ["global:write:x"]), ("io", ["io:print", "io:open"])].map fun (name, sideEffects) =>
    { name, inputs := [], outputs := [], calls := [], complexity := 1, sideEffects }

theorem diamond_summarized : Acyclic diamond ∧
    Summarized diamond diamondSignatures diamond.names (summaries diamond diamondSignatures) ∧
    ((summaries diamond diamondSignatures).map fun e => (e.1, e.2.sideEffects)) =
      [("io", ["io:print", "io:open"]), ("put", ["global:write:x", "io:print", "io:open"]),
        ("main", ["io:open", "global:write:x", "io:print"])] := by
  have hacyclic : Acyclic diamond := acyclic_of_rank String.length (by decide)
  exact ⟨hacyclic, (summaries_collect diamond diamondSignatures hacyclic).1, by decide⟩

end SecScan.Calls
