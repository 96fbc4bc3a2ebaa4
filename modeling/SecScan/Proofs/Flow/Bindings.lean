import SecScan.Proofs.Flow.Coverage
import SecScan.Proofs.Flow.Visits

/-!
Which bindings get versions and which are recorded. In a reachable block, assignments and parameters
make a version of each variable that they set, and the block is recorded as binding it. The target of
a loop or of a context manager stands in its block as an expression: a bare name gets a version but is
not recorded, and the names of a tuple or a list get none (`bindings_of_block`,
`loop_target_unrecorded`).
-/

namespace SecScan.Flow

open Syntax List SecScan.Flow.Graph

variable {n : Node} {i : Item} {v : String}

/-! ## What a target sets -/

/-- The target sets the variable, by itself or in tuples and lists. -/
inductive Unpacks : Expr → String → Prop where
  | name {l : Loc} {v : String} {c : Context} : Unpacks (.name l v c) v
  | tuple {l : Loc} {es : List Expr} {c : Context} {e : Expr} {v : String} :
      e ∈ es → Unpacks e v → Unpacks (.tuple l es c) v
  | list {l : Loc} {es : List Expr} {c : Context} {e : Expr} {v : String} :
      e ∈ es → Unpacks e v → Unpacks (.list l es c) v

mutual

theorem mem_targetNames : ∀ (e : Expr) {v : String}, v ∈ (targetNames e).map (·.name) ↔ Unpacks e v
  | .name l n c, v => by
    simp only [targetNames, map_cons, map_nil, mem_singleton]
    constructor
    · rintro rfl
      exact .name
    · rintro ⟨⟩
      rfl
  | .tuple l es c, v => by
    rw [targetNames, mem_targetsNames es]
    constructor
    · rintro ⟨e, he, hv⟩
      exact .tuple he hv
    · rintro (_ | ⟨he, hv⟩)
      exact ⟨_, he, hv⟩
  | .list l es c, v => by
    rw [targetNames, mem_targetsNames es]
    constructor
    · rintro ⟨e, he, hv⟩
      exact .list he hv
    · rintro (_ | _ | ⟨he, hv⟩)
      exact ⟨_, he, hv⟩
  | .boolOp .., v | .named .., v | .binOp .., v | .unaryOp .., v | .lambda .., v | .ifExp .., v
  | .dict .., v | .set .., v | .listComp .., v | .setComp .., v | .dictComp .., v | .generator .., v
  | .await .., v | .yield .., v | .yieldFrom .., v | .compare .., v | .call .., v | .formatted .., v
  | .joined .., v | .constant .., v | .attribute .., v | .subscript .., v | .starred .., v
  | .slice .., v => by
    simp only [targetNames, map_nil, not_mem_nil, false_iff]
    nofun

theorem mem_targetsNames : ∀ (es : List Expr) {v : String}, v ∈ (targetsNames es).map (·.name) ↔ ∃ e ∈ es, Unpacks e v
  | [], v => by simp [targetsNames]
  | e :: es, v => by
    rw [targetsNames, map_append, mem_append, mem_targetNames e, mem_targetsNames es]
    simp

end

namespace Item

/-- An assignment sets the variable, or it is a parameter. -/
def Sets : Item → String → Prop
  | .stmt (.assign _ ts _ _), v => ∃ t ∈ ts, Unpacks t v
  | .stmt (.annAssign _ t _ _ _), v => Unpacks t v
  | .stmt (.augAssign _ t _ _), v => Unpacks t v
  | .arg (.mk _ n _ _), v => n = v
  | _, _ => False

/-- A bare name that a loop or a context manager stores to. -/
def Stores (i : Item) (v : String) : Prop := ∃ l, i = .expr (.name l v .store)

/-- Not a compound statement. -/
def IsFlat (i : Item) : Prop := ∀ s, i = .stmt s → isFlat s = true

theorem mem_recorded (hi : i.IsFlat) : v ∈ i.recorded ↔ i.Sets v := by
  cases i with
  | arg a =>
    obtain ⟨l, n, hint, comment⟩ := a
    simp [recorded, Sets, eq_comm]
  | expr e => simp [recorded, assigned, Sets]
  | stmt s =>
    have hflat := hi s rfl
    cases s with
    | assign l ts e comment => exact mem_targetsNames ts
    | annAssign l t hint e simple => exact mem_targetNames t
    | augAssign l t op e => exact mem_targetNames t
    | expr | ret => simp [recorded, assigned, Sets]
    | _ => simp [isFlat] at hflat

theorem mem_binds (hi : i.IsFlat) : v ∈ i.binds.map (·.name) ↔ i.Sets v ∨ i.Stores v := by
  rw [← mem_recorded hi]
  unfold binds recorded
  split
  · simp [Stores]
  · simp [Stores, assigned, eq_comm]
  next hparam hname =>
    have hstores : ¬ i.Stores v := by
      rintro ⟨l, rfl⟩
      exact hname l v rfl
    split
    next l n hint comment => exact absurd rfl (hparam l n hint comment)
    next => simp [hstores]

end Item

/-! ## Items of a graph -/

theorem isFlat_of_mem_mainFlats {s : Stmt} (h : s ∈ mainFlats n) : isFlat s = true := by
  obtain ⟨m, -, hm⟩ := mem_filterMap.mp h
  unfold flat? at hm
  split at hm
  · split at hm
    next hflat => exact Option.some.inj hm ▸ hflat
    next => cases hm
  · cases hm

theorem isFlat_of_mem_rootNodes {s : Stmt} (h : .stmt s ∈ rootNodes n) : isFlat s = true := by
  have hs : s ∈ statements (rootNodes n) := mem_filterMap.mpr ⟨.stmt s, h, rfl⟩
  unfold rootNodes at hs
  split at hs
  next m =>
    obtain ⟨k, -, hk⟩ := mem_flatMap.mp ((mainFlats_body m.body).mem_iff.mpr hs)
    exact isFlat_of_mem_mainFlats hk
  next s' => exact isFlat_of_mem_mainFlats ((mainFlats_stmt s').mem_iff.mpr hs)
  next => simp [statements] at hs

theorem isFlat_of_mem_items {name : String} {b : Nat} (hi : i ∈ (build name n).itemsOf b) : i.IsFlat := by
  rintro s rfl
  obtain ⟨x, hx, -, hi⟩ := exists_block_of_mem_itemsOf hi
  have hcontents : .stmt s ∈ (build name n).contents := mem_flatMap.mpr ⟨x, hx, hi⟩
  exact isFlat_of_mem_rootNodes ((contents_root name n).mem_iff.mp hcontents)

/-- A block is recorded for the variables that its items set. -/
theorem records_iff_sets {name : String} {b : Nat} :
    Records (build name n) v b ↔ ∃ i ∈ (build name n).itemsOf b, i.Sets v := by
  constructor
  · intro h
    obtain ⟨x, hx, rfl, hv⟩ := records_iff.mp h
    obtain ⟨i, hi, hv⟩ := mem_flatMap.mp hv
    rw [← itemsOf_of_mem (build_wellFormed name n) hx] at hi
    exact ⟨i, hi, (Item.mem_recorded (isFlat_of_mem_items hi)).mp hv⟩
  · rintro ⟨i, hi, hv⟩
    exact records_of_mem hi ((Item.mem_recorded (isFlat_of_mem_items hi)).mpr hv)

/-- In a reachable block the items make new versions of the variables that they set or store to, and
of no others; the block is recorded for the variables that are set, but not for those stored to. -/
theorem bindings_of_block (name : String) (n : Node) {b : Nat} {t : List Nat}
    (ht : Trail (build name n) (b :: t)) :
    (Ssa.ofGraph (build name n)).versions.Nodup ∧
    (∀ v, Records (build name n) v b ↔ ∃ i ∈ (build name n).itemsOf b, i.Sets v) ∧
    ∃ x, (Ssa.ofGraph (build name n)).block? b = some x ∧ x.items.map (·.item) = (build name n).itemsOf b ∧
      ∀ i ∈ x.items, (∀ w ∈ i.writes, ∃ k, w.2 = .made w.1.name k) ∧
        ∀ v, (∃ w ∈ i.writes, w.1.name = v) ↔ i.item.Sets v ∨ i.item.Stores v := by
  have hg := build_wellFormed name n
  obtain ⟨y, hy, rfl⟩ := exists_visit hg ht
  obtain ⟨e, he⟩ := exists_from hg hy
  obtain ⟨x, hx, -, hitems, -⟩ := block?_ofGraph hg hy
  refine ⟨nodup_versions hg, fun v => records_iff_sets, x, hx, by rw [hitems, he.items_item], ?_⟩
  rw [hitems]
  intro i hi
  refine ⟨fun w hw => he.made hi hw, fun v => ?_⟩
  obtain ⟨k, hk⟩ := List.getElem?_of_mem hi
  have hitem : i.item ∈ (build name n).itemsOf y.block := he.items_item ▸ List.mem_map_of_mem hi
  rw [← Item.mem_binds (isFlat_of_mem_items hitem), ← (he.item hk).1]
  simp

/-- `for i in a: f(i)` -/
def visiting : Module where
  body := [.forLoop ⟨1, 0, 2, 8⟩ false (.name ⟨1, 4, 1, 5⟩ "i" .store) (.name ⟨1, 9, 1, 10⟩ "a" .load)
    [.expr ⟨2, 4, 2, 8⟩ (.call ⟨2, 4, 2, 8⟩ (.name ⟨2, 4, 2, 5⟩ "f" .load) [.name ⟨2, 6, 2, 7⟩ "i" .load] [])] [] none]

theorem bindings_of_visiting : Trail (build "m" (.module visiting)) [2, 1] ∧
    (Ssa.ofGraph (build "m" (.module visiting))).versions.Nodup ∧
    (∀ v, Records (build "m" (.module visiting)) v 2 ↔
      ∃ i ∈ (build "m" (.module visiting)).itemsOf 2, i.Sets v) ∧
    ∃ x, (Ssa.ofGraph (build "m" (.module visiting))).block? 2 = some x ∧
      x.items.map (·.item) = (build "m" (.module visiting)).itemsOf 2 ∧
      ∀ i ∈ x.items, (∀ w ∈ i.writes, ∃ k, w.2 = .made w.1.name k) ∧
        ∀ v, (∃ w ∈ i.writes, w.1.name = v) ↔ i.item.Sets v ∨ i.item.Stores v := by
  have htrail : Trail (build "m" (.module visiting)) [2, 1] := .step .start (by decide)
  exact ⟨htrail, bindings_of_block "m" (.module visiting) htrail⟩

/-- `for i, j in a: f(i)` -/
def pairing : Module where
  body := [.forLoop ⟨1, 0, 2, 8⟩ false
    (.tuple ⟨1, 4, 1, 8⟩ [.name ⟨1, 4, 1, 5⟩ "i" .store, .name ⟨1, 7, 1, 8⟩ "j" .store] .store)
    (.name ⟨1, 12, 1, 13⟩ "a" .load)
    [.expr ⟨2, 4, 2, 8⟩ (.call ⟨2, 4, 2, 8⟩ (.name ⟨2, 4, 2, 5⟩ "f" .load) [.name ⟨2, 6, 2, 7⟩ "i" .load] [])] [] none]

/-- The target of a loop has a version but no block is recorded for it; the targets of a loop over
pairs have not even versions. -/
theorem loop_target_unrecorded : (Ssa.ofGraph (build "m" (.module visiting))).versions = [.made "i" 1] ∧
    Definitions.ofGraph (build "m" (.module visiting)) = [] ∧
    (Ssa.ofGraph (build "m" (.module pairing))).versions = [] ∧
    Definitions.ofGraph (build "m" (.module pairing)) = [] := by
  decide

end SecScan.Flow
