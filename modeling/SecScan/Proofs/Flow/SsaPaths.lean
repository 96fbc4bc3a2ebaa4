import SecScan.Proofs.Flow.Growth
import SecScan.Proofs.Flow.Visits

/-!
Versions along the paths of a flow graph. Walking a path, the phis of each block that is entered and
then the bindings of its items replace the versions that hold (`Ssa.along`). If the graph is well
formed, nothing leads to its entry and every binding of a reachable block is recorded, then what a
block reads is what holds on any path to it, and a phi's operand for a predecessor is what holds at
the predecessor's end (`renamed_along_path`). Names in what an assignment binds have no version, even
where they are read (`subscript_target_unread`).
-/

namespace SecScan.Flow

open Syntax Node List Ssa

variable {g : Graph} {x : Visit}

/-! ## Versions as texts -/

namespace Version

def var : Version → String
  | made v _ => v
  | undefined v => v

/-- What follows the variable and the separator. -/
def ending : Version → String
  | made _ n => toString n
  | undefined _ => "undefined"

theorem text_eq (v : Version) : v.text = v.var ++ "_" ++ v.ending := by
  cases v with
  | made v n => rfl
  | undefined v =>
    have hsplit : "_undefined" = "_" ++ "undefined" := by decide
    rw [text, hsplit, ← String.append_assoc]
    rfl

theorem isDigit_of_mem_ending {v : String} {n : Nat} {a : Char} (h : a ∈ (made v n).ending.toList) : a.isDigit := by
  rw [ending, Nat.toString_eq_repr, Nat.toList_repr] at h
  exact Nat.isDigit_of_mem_toDigits (by decide) (by decide) h

theorem separator_not_mem (v : Version) : '_' ∉ v.ending.toList := by
  cases v with
  | made v n =>
    intro h
    exact absurd (isDigit_of_mem_ending h) (by decide)
  | undefined v =>
    rw [ending]
    decide

theorem text_injective : Function.Injective text := by
  intro v w h
  have hlist : v.var.toList ++ '_' :: v.ending.toList = w.var.toList ++ '_' :: w.ending.toList := by
    rw [text_eq, text_eq] at h
    simpa using congrArg String.toList h
  obtain ⟨hvar, hending⟩ := append_separator_inj v.separator_not_mem w.separator_not_mem hlist
  have hvar : v.var = w.var := String.toList_inj.mp hvar
  have hletter : 'u' ∈ "undefined".toList := by decide
  cases v with
  | made v n =>
    cases w with
    | made w k =>
      have hdigits : Nat.toDigits 10 n = Nat.toDigits 10 k := by
        simpa only [ending, Nat.toString_eq_repr, Nat.toList_repr] using hending
      rw [show v = w from hvar, toDigits_inj hdigits]
    | undefined w => exact absurd (isDigit_of_mem_ending (hending ▸ hletter)) (by decide)
  | undefined v =>
    cases w with
    | made w k => exact absurd (isDigit_of_mem_ending (hending ▸ hletter)) (by decide)
    | undefined w => rw [show v = w from hvar]

end Version

theorem text_undefined_iff (l : Latest) (v : String) :
    (l.holding.read v).text = v ++ "_undefined" ↔ l.holding v = none := by
  have hundefined : v ++ "_undefined" = (Version.undefined v).text := rfl
  rw [hundefined, Version.text_injective.eq_iff]
  unfold Holding.read Latest.holding
  cases l.lookup v <;> simp

/-! ## Walking a path -/

/-- The versions that hold once the phis of a block have taken theirs. -/
def SsaBlock.enter (x : SsaBlock) (e : Holding) : Holding := e.setAll (x.phis.map fun p => (p.var, p.result))

/-- The versions that hold at the end of a path, its latest block first. -/
def Ssa.along (s : Ssa) : List Nat → Holding
  | [] => fun _ => none
  | b :: t =>
    match s.block? b with
    | some x => (x.enter (s.along t)).after x.items
    | none => s.along t

/-- Whatever a reachable block binds is recorded for the placing of phis. -/
def BindingsRecorded (g : Graph) : Prop := ∀ b t v, Trail g (b :: t) → Binds g v b → Records g v b

theorem bindingsRecorded_of_items (h : ∀ x ∈ g.blocks, ∀ i ∈ x.items, ∀ o ∈ i.binds, o.name ∈ i.recorded) :
    BindingsRecorded g := by
  rintro b t v - ⟨i, hi, hv⟩
  obtain ⟨o, ho, rfl⟩ := mem_map.mp hv
  obtain ⟨x, hx, -, hix⟩ := exists_block_of_mem_itemsOf hi
  exact records_of_mem hi (h x hx i hix o ho)

theorem enter_ofGraph (hg : g.WellFormed) (hx : x ∈ g.visits) :
    ∃ s, (ofGraph g).block? x.block = some s ∧ s.items = x.items ∧ (∀ e, s.enter e = e.setAll x.phis) ∧
      ∀ p ∈ s.phis, p.operands = operands g g.visits x.block p.var := by
  obtain ⟨s, hs, -, hitems, hphis⟩ := block?_ofGraph hg hx
  refine ⟨s, hs, hitems, fun e => ?_, fun p hp => ?_⟩
  · rw [SsaBlock.enter, hphis, map_map]
    exact congrArg e.setAll (map_id'' (fun _ => rfl) x.phis)
  · rw [hphis] at hp
    obtain ⟨q, -, rfl⟩ := mem_map.mp hp
    rfl

theorem along_cons (hg : g.WellFormed) (hx : x ∈ g.visits) {e : Latest} {t : List Nat} (he : x.From g e)
    (h : ((ofGraph g).along t).setAll x.phis = e.holding.setAll x.phis) :
    (ofGraph g).along (x.block :: t) = x.final.holding := by
  obtain ⟨s, hs, hitems, henter, -⟩ := enter_ofGraph hg hx
  simp only [along, hs]
  rw [henter, hitems, h, he.final]

/-- On every path to a block its phis leave the versions that its visit started from. -/
theorem along_setAll (hg : g.WellFormed) (hentry : g.predecessors g.entry = [])
    (hrec : BindingsRecorded g) {t : List Nat} (hx : x ∈ g.visits) (ht : Trail g (x.block :: t)) :
    ∃ e, x.From g e ∧ ((ofGraph g).along t).setAll x.phis = e.holding.setAll x.phis := by
  induction t generalizing x with
  | nil => exact ⟨[], visit_entry hg hx ht.eq_entry, rfl⟩
  | cons a t ih =>
    have ha := ht.tail (by simp)
    have hc := ht.edge
    obtain ⟨y, hy, rfl⟩ := exists_visit hg ha
    obtain ⟨e, he, heq⟩ := ih hy ha
    obtain ⟨d, hd⟩ := exists_immediateDominator ht (ne_entry_of_edge hentry hc)
    obtain ⟨z, hz, rfl, hs⟩ := visit_idom hg hx hd
    refine ⟨z.final, hs, ?_⟩
    rw [along_cons hg hy he heq]
    funext v
    -- either a phi takes over, or the predecessor has the version of the immediate dominator
    refine Holding.setAll_congr x.phis ?_
    by_cases hphi : HasPhi g v x.block
    · exact .inr (hs.vars ▸ hphi)
    · refine .inl (holding_of_edge hg hy hz hc hd hphi fun u hu _ hbind => ?_).symm
      obtain ⟨s, hs⟩ := hu.left
      exact hrec u s v hs hbind

/-! ## What a path brings -/

/-- An item is renamed as befits the versions that hold before it. -/
structure RenamedItem.Fits (i : RenamedItem) (here : Holding) : Prop where
  /-- A name that is loaded has the version that holds, unless it is passed over. -/
  loads : ∀ n o, Below children i.item.node n → occurrence? n = some o → o.ctx = .load →
    ¬ i.item.Skips n → ∀ w, (o, w) ∈ i.reads ↔ w = here.read o.name
  /-- Only names of the item have a version. -/
  reads : ∀ o w, (o, w) ∈ i.reads → (∃ n, Below children i.item.node n ∧ occurrence? n = some o) ∧ w = here.read o.name
  undefined : ∀ v, (here.read v).text = v ++ "_undefined" ↔ here v = none
  writes : i.writes.map (·.1) = i.item.binds

/-- A block is renamed as befits what the path behind it brings. -/
structure SsaBlock.Fits (x : SsaBlock) (s : Ssa) (b : Nat) (t : List Nat) : Prop where
  block : s.block? b = some x
  items : x.items.map (·.item) = s.graph.itemsOf b
  item : ∀ k (i : RenamedItem), x.items[k]? = some i → i.Fits ((x.enter (s.along t)).after (x.items.take k))
  /-- A phi has one operand for the block before, the version that holds there. -/
  operand : ∀ a t', t = a :: t' → ∀ p ∈ x.phis, (∀ w, (a, w) ∈ p.operands ↔ w = (s.along t).read p.var) ∧
    (((s.along t).read p.var).text = p.var ++ "_undefined" ↔ s.along t p.var = none)

theorem Visit.From.fits {e : Latest} (h : x.From g e) {k : Nat} {i : RenamedItem} (hi : x.items[k]? = some i) :
    i.Fits ((e.holding.setAll x.phis).after (x.items.take k)) := by
  obtain ⟨hw, hr⟩ := h.item hi
  have hread : ∀ o w, (o, w) ∈ i.reads ↔
      o ∈ i.item.reads ∧ w = ((e.holding.setAll x.phis).after (x.items.take k)).read o.name := by
    intro o w
    rw [hr, mem_map]
    constructor
    · rintro ⟨o', ho', heq⟩
      obtain ⟨rfl, rfl⟩ := Prod.mk.inj heq
      exact ⟨ho', rfl⟩
    · rintro ⟨ho, rfl⟩
      exact ⟨o, ho, rfl⟩
  obtain ⟨l, hl⟩ := h.exists_latest k
  refine ⟨fun n o hn ho _ hskip w => ?_, fun o w how => ?_, fun v => ?_, hw⟩
  · rw [hread]
    exact and_iff_right ((Item.mem_reads_or_skips hn ho).resolve_right hskip)
  · obtain ⟨ho, heq⟩ := (hread o w).mp how
    exact ⟨Item.exists_of_mem_reads ho, heq⟩
  · rw [hl]
    exact text_undefined_iff l v

/-- On every path to a block, the block is renamed as befits what the path brings. -/
theorem renamed_along_path {g : Graph} (hg : g.WellFormed) (hentry : g.predecessors g.entry = [])
    (hrec : BindingsRecorded g) {b : Nat} {t : List Nat} (ht : Trail g (b :: t)) :
    (ofGraph g).versions.Nodup ∧ ∃ x : SsaBlock, x.Fits (ofGraph g) b t := by
  refine ⟨nodup_versions hg, ?_⟩
  obtain ⟨x, hx, rfl⟩ := exists_visit hg ht
  obtain ⟨e, he, heq⟩ := along_setAll hg hentry hrec hx ht
  obtain ⟨s, hs, hitems, henter, hoperands⟩ := enter_ofGraph hg hx
  refine ⟨s, hs, hitems ▸ he.items_item, fun k i hi => ?_, fun a t' hta p hp => ?_⟩
  · rw [hitems] at hi ⊢
    rw [henter, heq]
    exact he.fits hi
  · subst hta
    have ha := ht.tail (by simp)
    obtain ⟨y, hy, rfl⟩ := exists_visit hg ha
    obtain ⟨e', he', heq'⟩ := along_setAll hg hentry hrec hy ha
    rw [along_cons hg hy he' heq']
    refine ⟨fun w => ?_, text_undefined_iff _ _⟩
    rw [hoperands p hp]
    exact mem_operands hg hy ht.edge

/-- `x = 0; while x: x = x + 1; x` -/
def counting : Graph := Graph.build "m" <| .module { body := [
      .assign ⟨1, 0, 1, 5⟩ [.name ⟨1, 0, 1, 1⟩ "x" .store] (.constant ⟨1, 4, 1, 5⟩ (.nat 0) none) none,
      .whileLoop ⟨2, 0, 3, 13⟩ (.name ⟨2, 6, 2, 7⟩ "x" .load) [.assign ⟨3, 4, 3, 13⟩ [.name ⟨3, 4, 3, 5⟩ "x" .store]
          (.binOp ⟨3, 8, 3, 13⟩ (.name ⟨3, 8, 3, 9⟩ "x" .load) .add (.constant ⟨3, 12, 3, 13⟩ (.nat 1) none)) none] [],
      .expr ⟨4, 0, 4, 1⟩ (.name ⟨4, 0, 4, 1⟩ "x" .load)] }

/-- Once around the loop and out of it. -/
theorem renamed_along_loop : Trail counting [4, 2, 3, 2, 1] ∧ BindingsRecorded counting ∧
    (ofGraph counting).versions.Nodup ∧
    ∃ x : SsaBlock, x.Fits (ofGraph counting) 4 [2, 3, 2, 1] := by
  have hpath : Trail counting [4, 2, 3, 2, 1] :=
    .step (.step (.step (.step .start (by decide)) (by decide)) (by decide)) (by decide)
  have hrec : BindingsRecorded counting := bindingsRecorded_of_items (by decide)
  exact ⟨hpath, hrec, renamed_along_path (build_wellFormed _ _) (build_entry _ _) hrec hpath⟩

/-- `a = 1; a[0] = 2` -/
def subscripting : Graph := Graph.build "m" <| .module { body := [
      .assign ⟨1, 0, 1, 5⟩ [.name ⟨1, 0, 1, 1⟩ "a" .store] (.constant ⟨1, 4, 1, 5⟩ (.nat 1) none) none,
      .assign ⟨2, 0, 2, 8⟩ [.subscript ⟨2, 0, 2, 4⟩ (.name ⟨2, 0, 2, 1⟩ "a" .load)
          (.constant ⟨2, 2, 2, 3⟩ (.nat 0) none) .store]
        (.constant ⟨2, 7, 2, 8⟩ (.nat 2) none) none] }

/-- The second statement loads a name that has a version by then, and the name is left without. -/
theorem subscript_target_unread : subscripting.WellFormed ∧
    subscripting.predecessors subscripting.entry = [] ∧ BindingsRecorded subscripting ∧
    Trail subscripting [1] ∧ (ofGraph subscripting).along [1] "a" = some (.made "a" 1) ∧
    (∃ i ∈ subscripting.itemsOf 1, ∃ n, Below children i.node n ∧ occurrence? n = some ⟨⟨2, 0, 2, 1⟩, "a", .load⟩) ∧
    (ofGraph subscripting).names = [(⟨⟨1, 0, 1, 1⟩, "a", .store⟩, .made "a" 1)] := by
  refine ⟨build_wellFormed _ _, build_entry _ _, bindingsRecorded_of_items (by decide),
    .start, by decide, ⟨_, mem_cons_of_mem _ mem_cons_self,
      .expr (.name ⟨2, 0, 2, 1⟩ "a" .load), ?_, rfl⟩, by decide⟩
  exact .child (.child .self mem_cons_self) mem_cons_self

end SecScan.Flow
