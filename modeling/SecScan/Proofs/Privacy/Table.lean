import SecScan.Privacy.Naming
import SecScan.Proofs.Keyed

/-!
The table of a masking. It changes in two ways only: a name is entered under a label and the next number
of that label, or something is learned of a type (`Step`). No number of a label is given twice, so the
table names each entered name by one masked name and each masked name stands for one name
(`Table.Sound.lookup_iff`), whatever happens to the types in between.
-/

namespace SecScan.Privacy

open List

/-! ## Steps -/

def Table.enter (t : Table) (label name : String) : Table :=
  let count := (t.counters.lookup label).getD 0 + 1
  { t with
    entries := t.entries ++ [(label ++ "_" ++ toString count, name)]
    counters := putField label count t.counters }

/-- What can happen to the table at one point of a masking. -/
inductive Step (p : Policy) (t : Table) : Table → Prop
  | enter (label : String) {name : String} (hkept : name ∉ p.preserved) (hnew : t.masked? name = none) :
    Step p t (t.enter label name)
  | learn (types : List (String × String)) : Step p t { t with types }

abbrev Steps (p : Policy) : Table → Table → Prop := Relation.ReflTransGen (Step p)

variable {p : Policy} {t t' : Table} {name label o m : String}

theorem maskName_cases (p : Policy) (t : Table) (name label : String) :
    (name ∈ p.preserved ∧ (maskName p name label).run t = (name, t)) ∨
      (∃ m, name ∉ p.preserved ∧ t.masked? name = some m ∧ (maskName p name label).run t = (m, t)) ∨
      ∃ label' m, name ∉ p.preserved ∧ t.masked? name = none ∧ (m, name) ∈ (t.enter label' name).entries ∧
        (maskName p name label).run t = (m, t.enter label' name) := by
  by_cases hkept : p.preserved.contains name
  · refine .inl ⟨by simpa using hkept, ?_⟩
    rw [maskName, if_pos hkept]
    rfl
  · refine .inr ?_
    have hname : name ∉ p.preserved := by simpa using hkept
    cases hmasked : t.masked? name with
    | some m =>
      refine .inl ⟨m, hname, rfl, ?_⟩
      simp only [maskName, if_neg hkept, StateT.run_bind, StateT.run_get, pure_bind, hmasked]
      rfl
    | none =>
      refine .inr ⟨t.label p name label, _, hname, rfl, mem_append_right _ mem_cons_self, ?_⟩
      simp only [maskName, if_neg hkept, StateT.run_bind, StateT.run_get, pure_bind, hmasked]
      rfl

theorem steps_maskName (p : Policy) (t : Table) (name label : String) :
    Steps p t ((maskName p name label).run t).2 := by
  rcases maskName_cases p t name label with ⟨-, hrun⟩ | ⟨m, -, -, hrun⟩ | ⟨label', m, hkept, hnew, -, hrun⟩
  · rw [hrun]
  · rw [hrun]
  · rw [hrun]
    exact .single (.enter label' hkept hnew)

theorem Step.grows (h : Step p t t') : t.entries <+: t'.entries := by
  cases h with
  | enter => exact prefix_append _ _
  | learn => exact prefix_refl _

theorem Steps.grows (h : Steps p t t') : t.entries <+: t'.entries := by
  induction h with
  | refl => exact prefix_refl _
  | tail _ hstep ih => exact ih.trans hstep.grows

/-- A name keeps its masked name. -/
theorem Steps.masked? (h : Steps p t t') (hm : t.masked? o = some m) : t'.masked? o = some m := by
  obtain ⟨rest, hrest⟩ := h.grows
  obtain ⟨e, he, rfl⟩ := Option.map_eq_some_iff.mp hm
  rw [Table.masked?, ← hrest, find?_append, he]
  rfl

theorem maskName_of_masked (hkept : o ∉ p.preserved) (hm : t.masked? o = some m) (label : String) :
    (maskName p o label).run t = (m, t) := by
  rcases maskName_cases p t o label with ⟨hkept', -⟩ | ⟨m', -, hm', hrun⟩ | ⟨_, m', -, hnew, -⟩
  · exact absurd hkept' hkept
  · rw [hrun, Option.some.inj (hm'.symm.trans hm)]
  · rw [hnew] at hm
    cases hm

/-! ## Each number once -/

/-- No name and no masked name is entered twice, and a masked name has a number that was given. -/
structure Table.Sound (p : Policy) (t : Table) : Prop where
  originals : (t.entries.map (·.2)).Nodup
  masked : (t.entries.map (·.1)).Nodup
  kept : ∀ e ∈ t.entries, e.2 ∉ p.preserved
  numbered : ∀ e ∈ t.entries, ∃ label n, e.1 = label ++ "_" ++ toString n ∧ n ≤ (t.counters.lookup label).getD 0

theorem not_mem_of_masked?_none (h : t.masked? name = none) : name ∉ t.entries.map (·.2) := by
  intro hmem
  obtain ⟨e, he, rfl⟩ := mem_map.mp hmem
  have hnone := find?_eq_none.mp (Option.map_eq_none_iff.mp h) e he
  simp at hnone

theorem Table.Sound.enter (h : t.Sound p) (label : String) (hkept : name ∉ p.preserved)
    (hnew : t.masked? name = none) : (t.enter label name).Sound p := by
  have hcount : ∀ l, (t.counters.lookup l).getD 0 ≤ ((t.enter label name).counters.lookup l).getD 0 := by
    intro l
    simp only [Table.enter, lookup_putField]
    split
    · next hl => simp [hl]
    · exact Nat.le_refl _
  constructor
  · rw [Table.enter, map_append]
    exact nodup_concat h.originals (not_mem_of_masked?_none hnew)
  · rw [Table.enter, map_append]
    refine nodup_concat h.masked fun hmem => ?_
    obtain ⟨e, he, heq⟩ := mem_map.mp hmem
    obtain ⟨l, n, hl, hn⟩ := h.numbered e he
    obtain ⟨rfl, rfl⟩ := numbered_inj rfl rfl (hl.symm.trans heq)
    omega
  · intro e he
    rcases mem_append.mp he with he | he
    · exact h.kept e he
    · rwa [mem_singleton.mp he]
  · intro e he
    rcases mem_append.mp he with he | he
    · obtain ⟨l, n, hl, hn⟩ := h.numbered e he
      exact ⟨l, n, hl, Nat.le_trans hn (hcount l)⟩
    · exact ⟨label, _, by rw [mem_singleton.mp he], by simp [Table.enter, lookup_putField]⟩

theorem Table.Sound.step (h : t.Sound p) (hstep : Step p t t') : t'.Sound p := by
  cases hstep with
  | enter label hkept hnew => exact h.enter label hkept hnew
  | learn => exact ⟨h.originals, h.masked, h.kept, h.numbered⟩

theorem sound_of_steps (h : Steps p {} t) : t.Sound p := by
  induction h with
  | refl => exact ⟨nodup_nil, nodup_nil, by simp, by simp⟩
  | tail _ hstep ih => exact ih.step hstep

namespace Table.Sound

/-- The table can be read both ways. -/
theorem masked?_iff (h : t.Sound p) : t.masked? o = some m ↔ (m, o) ∈ t.entries := by
  constructor
  · intro hm
    obtain ⟨e, he, rfl⟩ := Option.map_eq_some_iff.mp hm
    have ho : e.2 = o := by simpa using find?_some he
    exact ho ▸ mem_of_find?_eq_some he
  · intro hmem
    cases hfind : t.entries.find? (·.2 == o) with
    | none => exact absurd (find?_eq_none.mp hfind _ hmem) (by simp)
    | some e =>
      have he : e = (m, o) :=
        inj_on_of_nodup_map h.originals (mem_of_find?_eq_some hfind) hmem (by simpa using find?_some hfind)
      simp [Table.masked?, hfind, he]

theorem lookup_iff (h : t.Sound p) : t.entries.lookup m = some o ↔ t.masked? o = some m := by
  rw [h.masked?_iff]
  constructor
  · exact mem_of_lookup
  · intro hmem
    cases hfind : t.entries.lookup m with
    | none => exact absurd (lookup_eq_none_iff.mp hfind _ hmem) (by simp)
    | some o' =>
      have he : (m, o') = (m, o) := inj_on_of_nodup_map h.masked (mem_of_lookup hfind) hmem rfl
      rw [(Prod.mk.inj he).2]

end Table.Sound

/-! ## Kept names -/

def endsInDigit (s : String) : Bool := s.toList.getLast?.any Char.isDigit

theorem endsInDigit_numbered (label : String) (n : Nat) : endsInDigit (label ++ "_" ++ toString n) := by
  obtain ⟨c, hc⟩ := Option.isSome_iff_exists.mp (getLast?_isSome.mpr (Nat.toDigits_ne_nil (n := n) (b := 10)))
  have hdigit : c.isDigit := Nat.isDigit_of_mem_toDigits (by decide) (by decide) (mem_of_getLast? hc)
  simp [endsInDigit, Nat.toString_eq_repr, getLast?_cons, hc, hdigit]

theorem not_endsInDigit_of_preserved {preserveBuiltins : Bool} {sensitive : List String}
    (h : name ∈ (Policy.of preserveBuiltins sensitive).preserved) : endsInDigit name = false := by
  have hall : ∀ n ∈ builtinNames ++ customaryNames, endsInDigit n = false := by decide +kernel
  refine hall name ?_
  cases preserveBuiltins
  · exact mem_append_right _ (by simpa [Policy.of] using h)
  · simpa [Policy.of] using h

end SecScan.Privacy
