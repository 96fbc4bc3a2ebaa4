import SecScan.Taint.Marks
import Mathlib.Data.List.Nodup
import Mathlib.Data.List.Perm.Subperm

/-!
How taint spreads. One version hands taint on to others by an assignment, a phi or a condition
(`Hands`); `handOn` marks just these (`advances_handOn`), whatever the skipped blocks and the regions
kept from before. A run that serves the pending marks in any order takes at most as many steps as
there are versions, and when none is pending the marks are the least set that holds what sources
define and is closed under handing on (`marks_least`).
-/

namespace SecScan.Taint

open Syntax SecScan.Flow List

variable {i : RenamedItem} {s : Ssa} {c : Config} {p : Spread} {T : Version → Prop}
variable {v : Version} {n : Nat}

/-! ## Rules -/

/-- A source statement defines the version. -/
def Begins (s : Ssa) (c : Config) (v : Version) : Prop :=
  ∃ b ∈ s.blocks, ∃ i ∈ b.items, (i.item.source? c).isSome ∧ v ∈ i.defines

def DefinedIn (s : Ssa) (d : Nat) (v : Version) : Prop := ∃ b, s.block? d = some b ∧ ∃ i ∈ b.items, v ∈ i.defines

/-- The version is defined in the region that the edges out of a block decide about. -/
def Controls (s : Ssa) (b : Nat) (v : Version) : Prop :=
  ∃ d ∈ controlRegion s.graph (controlSuccessors s.graph b), DefinedIn s d v

/-- If `u` is tainted, so is the other version. -/
inductive Hands (s : Ssa) (c : Config) (u : Version) : Version → Prop where
  | assign {b : SsaBlock} {i : RenamedItem} {v : Version} : b ∈ s.blocks → i ∈ b.items →
      i.item.sanitizes c = false → u ∈ i.loads → v ∈ i.defines → Hands s c u v
  | phi {b : SsaBlock} {f : Phi} : b ∈ s.blocks → f ∈ b.phis → u ∈ f.operands.map (·.2) → Hands s c u f.result
  | control {b : SsaBlock} {i : RenamedItem} {v : Version} : b ∈ s.blocks → i ∈ b.items →
      i.item.isStmt = false → controlSuccessors s.graph b.id ≠ [] → u ∈ i.loads →
      Controls s b.id v → Hands s c u v

/-- Tainted by assignments and phis alone. -/
inductive Explicit (s : Ssa) (c : Config) : Version → Prop where
  | source {v : Version} : Begins s c v → Explicit s c v
  | assign {b : SsaBlock} {i : RenamedItem} {u v : Version} : Explicit s c u → b ∈ s.blocks →
      i ∈ b.items → i.item.sanitizes c = false → u ∈ i.loads → v ∈ i.defines → Explicit s c v
  | phi {b : SsaBlock} {f : Phi} {u : Version} : Explicit s c u → b ∈ s.blocks → f ∈ b.phis →
      u ∈ f.operands.map (·.2) → Explicit s c f.result

/-- A statement that calls the named source defines the version. -/
def SourceOf (s : Ssa) (c : Config) (name : String) (v : Version) : Prop :=
  ∃ b ∈ s.blocks, ∃ i ∈ b.items, i.item.source? c = some name ∧ v ∈ i.defines

theorem begins_iff : Begins s c v ↔ ∃ name, SourceOf s c name v := by
  simp only [Begins, SourceOf, Option.isSome_iff_exists]
  grind

/-- What a mark takes over from the one that handed taint on to it. -/
structure Mark.Inherits (s : Ssa) (c : Config) (m n : Mark) : Prop where
  hands : Hands s c m.version n.version
  source : n.source = m.source
  explicit : n.implicit = false → m.implicit = false ∧ (Explicit s c m.version → Explicit s c n.version)

/-! ## Marking -/

@[simp] theorem Marks.has_append (ms ns : Marks) (v : Version) :
    Marks.has (ms ++ ns) v = (Marks.has ms v || Marks.has ns v) := any_append

theorem Marks.has_iff {ms : Marks} : ms.has v = true ↔ v ∈ ms.map (·.version) := by simp [Marks.has]

namespace Spread

/-- No version is marked twice, and what is kept from before is right: the regions, and that all is
marked in the blocks that are skipped. -/
structure Valid (s : Ssa) (p : Spread) : Prop where
  nodup : (p.marks.map (·.version)).Nodup
  regions : ∀ b r, p.regions.lookup b = some r → r = controlRegion s.graph (controlSuccessors s.graph b)
  controlled : ∀ d source, (d, source) ∈ p.controlled → ∀ v, DefinedIn s d v → p.marks.has v

/-- New marks wait beside those before. They have the property, and the versions of all marks with the property are
marked. -/
structure Advances (s : Ssa) (p p' : Spread) (P : Mark → Prop) : Prop where
  valid : p'.Valid s
  new : ∃ ms, p'.marks = p.marks ++ ms ∧ p'.pending = p.pending ++ ms ∧ ∀ m ∈ ms, P m
  all : ∀ m, P m → p'.marks.has m.version

variable {s : Ssa} {c : Config} {p p' p'' : Spread} {P Q : Mark → Prop}

theorem Advances.mono (h : Advances s p p' P) (hv : p.marks.has v) : p'.marks.has v := by
  obtain ⟨ms, hms, -⟩ := h.new
  simp [hms, hv]

theorem Advances.refl (h : p.Valid s) (hP : ∀ m, ¬ P m) : Advances s p p P :=
  ⟨h, ⟨[], by simp, by simp, by simp⟩, fun m hm => absurd hm (hP m)⟩

theorem Advances.trans (h₁ : Advances s p p' P) (h₂ : Advances s p' p'' Q) : Advances s p p'' fun m => P m ∨ Q m where
  valid := h₂.valid
  new := by
    obtain ⟨ms, hm, hp, hP⟩ := h₁.new
    obtain ⟨ns, hn, hq, hQ⟩ := h₂.new
    refine ⟨ms ++ ns, by simp [hn, hm], by simp [hq, hp], fun m hmem => ?_⟩
    exact (mem_append.mp hmem).imp (hP m) (hQ m)
  all m hm := hm.elim (fun h => h₂.mono (h₁.all m h)) (h₂.all m)

theorem Advances.imp (h : Advances s p p' P) (hnew : ∀ m, P m → Q m)
    (hall : ∀ m, Q m → ∃ n, P n ∧ n.version = m.version) : Advances s p p' Q := by
  obtain ⟨ms, hmarks, hpending, hms⟩ := h.new
  refine ⟨h.valid, ⟨ms, hmarks, hpending, fun m hm => hnew m (hms m hm)⟩, fun m hm => ?_⟩
  obtain ⟨n, hn, heq⟩ := hall m hm
  exact heq ▸ h.all n hn

theorem Advances.congr (h : Advances s p p' P) (heq : ∀ m, P m ↔ Q m) : Advances s p p' Q :=
  h.imp (fun m => (heq m).mp) fun m hm => ⟨m, (heq m).mpr hm, rfl⟩

/-- A block may be skipped from now on if all is marked in it. -/
theorem Advances.skip (h : Advances s p p' P) (hp : p.Valid s) (source : String) {d : Nat}
    (hd : ∀ v, DefinedIn s d v → p'.marks.has v) :
    Advances s p { p' with controlled := (d, source) :: p.controlled } P := by
  refine ⟨⟨h.valid.nodup, h.valid.regions, ?_⟩, h.new, h.all⟩
  intro d' source' hmem v hv
  rcases mem_cons.mp hmem with heq | hmem
  · obtain ⟨rfl, rfl⟩ := Prod.mk.inj heq
    exact hd v hv
  · exact h.mono (hp.controlled d' source' hmem v hv)

/-- Steps over a list mark what each of them marks. -/
theorem Advances.foldl {α : Type} {f : Spread → α → Spread} {R : α → Mark → Prop} {xs : List α}
    (hf : ∀ x ∈ xs, ∀ p : Spread, p.Valid s → Advances s p (f p x) (R x)) (h : p.Valid s) :
    Advances s p (xs.foldl f p) fun m => ∃ x ∈ xs, R x m := by
  induction xs generalizing p with
  | nil => exact .refl h (by simp)
  | cons x xs ih =>
    have hx := hf x mem_cons_self p h
    have hxs := ih (fun y hy => hf y (mem_cons_of_mem _ hy)) hx.valid
    exact (hx.trans hxs).congr fun m => by simp

/-- Marking does not look at the blocks that are skipped. -/
theorem add_controlled (p : Spread) (k : List (Nat × String)) (source : String) (implicit : Bool)
    (vs : List Version) : { p with controlled := k }.add source implicit vs =
      { p.add source implicit vs with controlled := k } := by
  induction vs generalizing p with
  | nil => rfl
  | cons v vs ih =>
    simp only [add, foldl_cons] at ih ⊢
    split
    · exact ih p
    · exact ih { p with marks := _, pending := _ }

theorem addBlock_controlled (p : Spread) (k : List (Nat × String)) (source : String) (b : SsaBlock) :
    { p with controlled := k }.addBlock source b = { p.addBlock source b with controlled := k } := by
  unfold addBlock
  induction b.items generalizing p with
  | nil => rfl
  | cons i is ih =>
    rw [foldl_cons, add_controlled, ih]
    rfl

theorem mem_uses {u : Use} {w : Version} :
    u ∈ uses s w ↔ ∃ b ∈ s.blocks, ∃ i ∈ b.items, w ∈ i.loads ∧ u = ⟨b.id, i⟩ := by
  simp only [uses, mem_flatMap, mem_map, mem_filter, beq_iff_eq]
  grind

section

variable (h : p.Valid s) (source : String)
include h

theorem advances_add (implicit : Bool) (vs : List Version) :
    Advances s p (p.add source implicit vs) fun m => ∃ v ∈ vs, m = ⟨v, source, implicit⟩ := by
  refine Advances.foldl (fun v _ p h => ?_) h
  split
  · rename_i hv
    exact ⟨h, ⟨[], by simp, by simp, by simp⟩, fun m hm => hm ▸ hv⟩
  · rename_i hv
    refine ⟨⟨?_, h.regions, ?_⟩, ⟨_, rfl, rfl, by simp⟩, ?_⟩
    · rw [Marks.has_iff] at hv
      rw [map_append, nodup_append]
      refine ⟨h.nodup, nodup_singleton _, ?_⟩
      rintro w hw _ hx rfl
      obtain rfl : w = v := by simpa using hx
      exact hv hw
    · intro d src hd w hw
      simp [h.controlled d src hd w hw]
    · rintro m rfl
      simp [Marks.has]

theorem advances_addBlock (b : SsaBlock) :
    Advances s p (p.addBlock source b) fun m => ∃ i ∈ b.items, ∃ v ∈ i.defines, m = ⟨v, source, true⟩ :=
  Advances.foldl (fun i _ _ h => advances_add h source true i.defines) h

/-- A block that is skipped has nothing left to mark. -/
theorem advances_control (d : Nat) :
    Advances s p (control s source p d) fun m => ∃ v, DefinedIn s d v ∧ m = ⟨v, source, true⟩ := by
  unfold control
  split
  · rename_i hskip
    refine ⟨h, ⟨[], by simp, by simp, by simp⟩, ?_⟩
    rintro _ ⟨v, hv, rfl⟩
    exact h.controlled d source (contains_iff_mem.mp hskip) v hv
  · cases hb : s.block? d with
    | none =>
      have hnone : ∀ v, ¬ DefinedIn s d v := by simp [DefinedIn, hb]
      exact (Advances.refl h (by simp [hnone])).skip h source fun v hv => absurd hv (hnone v)
    | some b =>
      have hadd := (advances_addBlock h source b).congr
        (Q := fun m => ∃ v, DefinedIn s d v ∧ m = ⟨v, source, true⟩) fun m => by simp [DefinedIn, hb]; grind
      simp only [addBlock_controlled]
      exact hadd.skip h source fun v hv => hadd.all ⟨v, source, true⟩ ⟨v, hv, rfl⟩

theorem region_eq (b : Nat) : (p.region s.graph b).1 = controlRegion s.graph (controlSuccessors s.graph b) ∧
      Advances s p (p.region s.graph b).2 fun _ => False := by
  unfold region
  split
  · rename_i r hr
    exact ⟨h.regions b r hr, .refl h fun _ => id⟩
  · refine ⟨rfl, ⟨h.nodup, ?_, h.controlled⟩, ⟨[], by simp, by simp, by simp⟩, fun _ hv => hv.elim⟩
    intro b' r hr
    rw [lookup_cons] at hr
    split at hr
    · rename_i heq
      obtain rfl : b' = b := by simpa using heq
      simpa using hr.symm
    · exact h.regions b' r hr

theorem advances_controlAll (b : Nat) (source : String) :
    Advances s p (p.controlAll s b source) fun m => ∃ v, Controls s b v ∧ m = ⟨v, source, true⟩ := by
  obtain ⟨hregion, hkeep⟩ := region_eq h b
  have hfold := Advances.foldl (fun d (_ : d ∈ (p.region s.graph b).1) _ h => advances_control h source d) hkeep.valid
  refine (hkeep.trans hfold).congr fun m => ?_
  rw [hregion, false_or]
  simp only [Controls]
  grind

/-- What a mark hands on where its version is used. -/
def UseHands (s : Ssa) (c : Config) (m : Mark) (u : Use) (n : Mark) : Prop :=
  u.item.item.sanitizes c = false ∧ ((∃ v ∈ u.item.defines, n = ⟨v, m.source, m.implicit⟩) ∨
    (u.item.item.isStmt = false ∧ controlSuccessors s.graph u.block ≠ []) ∧
      ∃ v, Controls s u.block v ∧ n = ⟨v, m.source, true⟩)

theorem advances_use (m : Mark) (u : Use) : Advances s p (use s c m p u) (UseHands s c m u) := by
  unfold use
  split
  · rename_i hclean
    exact .refl h fun n => by simp [UseHands, hclean]
  · rename_i hclean
    have hclean : u.item.item.sanitizes c = false := by simpa using hclean
    have hadd := advances_add h m.source m.implicit u.item.defines
    split
    · rename_i hcontrol
      have hcontrol : u.item.item.isStmt = false ∧ controlSuccessors s.graph u.block ≠ [] := by simpa using hcontrol
      exact (hadd.trans (advances_controlAll hadd.valid u.block m.source)).congr fun n => by
        simp [UseHands, hclean, hcontrol]
    · rename_i hcontrol
      have hcontrol : ¬ (u.item.item.isStmt = false ∧ controlSuccessors s.graph u.block ≠ []) := by simpa using hcontrol
      exact hadd.congr fun n => by simp [UseHands, hclean, hcontrol]

theorem advances_phi (m : Mark) (f : Phi) : Advances s p (phi m p f) fun n =>
    m.version ∈ f.operands.map (·.2) ∧ n = ⟨f.result, m.source, m.implicit⟩ := by
  have hmem : f.operands.any (·.2 == m.version) = true ↔ m.version ∈ f.operands.map (·.2) := by simp
  unfold phi
  split
  · rename_i hop
    exact (advances_add h m.source m.implicit [f.result]).congr fun n => by
      simp [hmem.mp hop]
  · rename_i hop
    exact .refl h fun n hn => hop (hmem.mpr hn.1)

theorem advances_handOn (m : Mark) : Advances s p (p.handOn s c m) (m.Inherits s c) := by
  have huses := Advances.foldl (fun u (_ : u ∈ uses s m.version) _ h => advances_use (c := c) h m u) h
  have hphis := Advances.foldl (fun f (_ : f ∈ s.blocks.flatMap (·.phis)) _ h => advances_phi h m f) huses.valid
  refine (huses.trans hphis).imp ?_ ?_
  · rintro n (⟨u, hu, hclean, hn⟩ | ⟨f, hf, hop, rfl⟩)
    · obtain ⟨b, hb, i, hi, hload, rfl⟩ := mem_uses.mp hu
      rcases hn with ⟨v, hv, rfl⟩ | ⟨⟨hstmt, hsucc⟩, v, hv, rfl⟩
      · exact ⟨.assign hb hi hclean hload hv, rfl, fun hexp => ⟨hexp, fun hm => hm.assign hb hi hclean hload hv⟩⟩
      · exact ⟨.control hb hi hstmt hsucc hload hv, rfl, nofun⟩
    · obtain ⟨b, hb, hf⟩ := mem_flatMap.mp hf
      exact ⟨.phi hb hf hop, rfl, fun hexp => ⟨hexp, fun hm => hm.phi hb hf hop⟩⟩
  · rintro ⟨v, source, implicit⟩ ⟨hv, -, -⟩
    cases hv with
    | assign hb hi hclean hload hv =>
      exact ⟨_, .inl ⟨_, mem_uses.mpr ⟨_, hb, _, hi, hload, rfl⟩, hclean, .inl ⟨_, hv, rfl⟩⟩, rfl⟩
    | phi hb hf hop => exact ⟨_, .inr ⟨_, mem_flatMap.mpr ⟨_, hb, hf⟩, hop, rfl⟩, rfl⟩
    | @control b i _ hb hi hstmt hsucc hload hv =>
      -- only statements sanitize
      have hclean : i.item.sanitizes c = false := by
        cases hitem : i.item with
        | stmt _ => simp [hitem, Item.isStmt] at hstmt
        | expr _ => rfl
        | arg _ => rfl
      exact ⟨_, .inl ⟨_, mem_uses.mpr ⟨_, hb, _, hi, hload, rfl⟩, hclean, .inr ⟨⟨hstmt, hsucc⟩, _, hv, rfl⟩⟩, rfl⟩

end

theorem advances_start : Advances s {} (start s c) fun m => SourceOf s c m.source m.version ∧ m.implicit = false := by
  have hempty : Spread.Valid s {} := ⟨nodup_nil, by simp, by simp⟩
  have hsource : ∀ i ∈ s.blocks.flatMap (·.items), ∀ p : Spread, p.Valid s → Advances s p (source c p i) fun m =>
      i.item.source? c = some m.source ∧ m.version ∈ i.defines ∧ m.implicit = false := by
    intro i _ p h
    unfold source
    split
    · rename_i name hname
      refine (advances_add h name false i.defines).congr fun m => ?_
      obtain ⟨v, source, implicit⟩ := m
      simp [hname]
      grind
    · rename_i hname
      exact .refl h fun m => by simp [hname]
  refine (Advances.foldl hsource hempty).congr fun m => ?_
  simp only [SourceOf, mem_flatMap]
  grind

end Spread

theorem mem_initial : v ∈ (initial s c).map (·.version) ↔ Begins s c v := by
  have hstart : Spread.Advances s {} (Spread.start s c) _ := Spread.advances_start
  obtain ⟨ms, hmarks, -, hms⟩ := hstart.new
  rw [begins_iff]
  constructor
  · intro h
    obtain ⟨m, hm, rfl⟩ := mem_map.mp h
    exact ⟨m.source, (hms m (by simpa [initial, hmarks] using hm)).1⟩
  · rintro ⟨name, h⟩
    exact Marks.has_iff.mp (hstart.all ⟨v, name, false⟩ ⟨h, rfl⟩)

/-! ## Runs -/

/-- Holds what sources define and what is handed on from it. -/
structure TaintClosed (s : Ssa) (c : Config) (T : Version → Prop) : Prop where
  source : ∀ v, Begins s c v → T v
  hands : ∀ u v, T u → Hands s c u v → T v

/-- The state after some steps, each of which hands on any one of the pending marks. -/
inductive Served (s : Ssa) (c : Config) : Nat → Spread → Prop where
  | start : Served s c 0 (Spread.start s c)
  | step {n : Nat} {p : Spread} {l r : Marks} {m : Mark} : Served s c n p →
      p.pending = l ++ m :: r → Served s c (n + 1) ({ p with pending := l ++ r }.handOn s c m)

theorem mem_writes_of_defines (h : v ∈ i.defines) : v ∈ i.writes.map (·.2) := by
  unfold RenamedItem.defines at h
  split at h
  · simp at h
  · exact h
  · simp at h

theorem mem_versions_of_defines {b : SsaBlock}
    (hb : b ∈ s.blocks) (hi : i ∈ b.items) (hv : v ∈ i.defines) : v ∈ s.versions :=
  mem_flatMap.mpr ⟨b, hb, mem_append_right _ (mem_flatMap.mpr ⟨i, hi, mem_writes_of_defines hv⟩)⟩

theorem Begins.mem_versions (h : Begins s c v) : v ∈ s.versions := by
  obtain ⟨b, hb, i, hi, -, hv⟩ := h
  exact mem_versions_of_defines hb hi hv

theorem Hands.mem_versions {u : Version} (h : Hands s c u v) : v ∈ s.versions := by
  cases h with
  | assign hb hi _ _ hv => exact mem_versions_of_defines hb hi hv
  | phi hb hf _ => exact mem_flatMap.mpr ⟨_, hb, mem_append_left _ (mem_map_of_mem hf)⟩
  | control _ _ _ _ _ hv =>
    obtain ⟨_, -, b, hb, i, hi, hv⟩ := hv
    exact mem_versions_of_defines (mem_of_find?_eq_some hb) hi hv

/-- What holds after any number of steps. -/
structure Served.Ok (s : Ssa) (c : Config) (n : Nat) (p : Spread) : Prop where
  valid : p.Valid s
  /-- Each step takes one mark off, and new marks wait. -/
  count : n + p.pending.length = p.marks.length
  pending : ∀ m ∈ p.pending, m ∈ p.marks
  made : ∀ m ∈ p.marks, m.version ∈ s.versions
  least : ∀ T, TaintClosed s c T → ∀ m ∈ p.marks, T m.version
  source : ∀ v, Begins s c v → p.marks.has v
  /-- What is marked waits or has been handed on. -/
  hands : ∀ m ∈ p.marks, m ∈ p.pending ∨ ∀ v, Hands s c m.version v → p.marks.has v

theorem Served.ok (h : Served s c n p) : Served.Ok s c n p := by
  induction h with
  | start =>
    have hstart : Spread.Advances s {} (Spread.start s c) _ := Spread.advances_start
    obtain ⟨ms, hmarks, hpending, hms⟩ := hstart.new
    simp only [nil_append] at hmarks hpending
    rw [← hmarks] at hms hpending
    have hbegins : ∀ m ∈ (Spread.start s c).marks, Begins s c m.version := fun m hm => begins_iff.mpr ⟨_, (hms m hm).1⟩
    exact ⟨hstart.valid, by rw [hpending]; omega, fun m hm => hpending ▸ hm,
      fun m hm => (hbegins m hm).mem_versions, fun T hT m hm => hT.source _ (hbegins m hm),
      fun v hv => Marks.has_iff.mpr (mem_initial.mpr hv), fun m hm => .inl (hpending ▸ hm)⟩
  | @step n p l r m hserved hsplit ih =>
    have hvalid : Spread.Valid s { p with pending := l ++ r } := ⟨ih.valid.nodup, ih.valid.regions, ih.valid.controlled⟩
    have hstep := Spread.advances_handOn (c := c) hvalid m
    obtain ⟨ms, hmarks, hpending, hms⟩ := hstep.new
    have hm : m ∈ p.marks := ih.pending m (by simp [hsplit])
    refine ⟨hstep.valid, ?_, ?_, ?_, ?_, fun v hv => hstep.mono (ih.source v hv), ?_⟩
    · have hcount := ih.count
      rw [hsplit] at hcount
      rw [hmarks, hpending]
      simp only [length_append, length_cons] at hcount ⊢
      omega
    · rw [hmarks, hpending]
      intro x hx
      refine mem_append.mpr ((mem_append.mp hx).imp_left fun hx => ih.pending x ?_)
      rw [hsplit]
      exact (mem_append.mp hx).elim (mem_append_left _) fun hx => mem_append_right _ (mem_cons_of_mem _ hx)
    · rw [hmarks]
      intro x hx
      exact (mem_append.mp hx).elim (ih.made x) fun hx => (hms x hx).hands.mem_versions
    · rw [hmarks]
      intro T hT x hx
      exact (mem_append.mp hx).elim (ih.least T hT x) fun hx => hT.hands _ _ (ih.least T hT m hm) (hms x hx).hands
    · intro x hx
      rw [hmarks] at hx
      rw [hpending]
      rcases mem_append.mp hx with hx | hx
      · rcases ih.hands x hx with hwait | hdone
        · rw [hsplit] at hwait
          rcases mem_append.mp hwait with hwait | hwait
          · exact .inl (by simp [hwait])
          · rcases mem_cons.mp hwait with rfl | hwait
            · exact .inr fun v hv => hstep.all ⟨v, x.source, true⟩ ⟨hv, rfl, nofun⟩
            · exact .inl (by simp [hwait])
        · exact .inr fun v hv => hstep.mono (hdone v hv)
      · exact .inl (by simp [hx])

/-- Every step takes a version of its own. -/
theorem Served.le (h : Served s c n p) : n + p.pending.length ≤ s.versions.length := by
  have hsubset : p.marks.map (·.version) ⊆ s.versions := fun v hv => by
    obtain ⟨m, hm, rfl⟩ := mem_map.mp hv
    exact h.ok.made m hm
  have hle := (subperm_of_subset h.ok.valid.nodup hsubset).length_le
  rw [length_map] at hle
  exact h.ok.count ▸ hle

theorem Served.closed (h : Served s c n p) (hdone : p.pending = []) : TaintClosed s c fun v => p.marks.has v where
  source := h.ok.source
  hands u v hu hv := by
    obtain ⟨m, hm, rfl⟩ := mem_map.mp (Marks.has_iff.mp hu)
    exact (h.ok.hands m hm).resolve_left (by simp [hdone]) v hv

theorem Served.subset (h : Served s c n p) (hT : TaintClosed s c T) (hv : p.marks.has v) : T v := by
  obtain ⟨m, hm, rfl⟩ := mem_map.mp (Marks.has_iff.mp hv)
  exact h.ok.least T hT m hm

/-- Serving the first mark that waits is one of the runs. -/
theorem served_run (fuel : Nat) (h : Served s c n p) :
    ∃ k, Served s c k (p.run s c fuel) ∧ ((p.run s c fuel).pending = [] ∨ k = n + fuel) := by
  induction fuel generalizing n p with
  | zero => exact ⟨n, h, .inr rfl⟩
  | succ fuel ih =>
    unfold Spread.run
    split
    · rename_i hdone
      exact ⟨n, h, .inl hdone⟩
    · rename_i m rest hpending
      obtain ⟨k, hk, hend⟩ := ih (h.step (l := []) hpending)
      exact ⟨k, hk, hend.imp_right fun hk => by omega⟩

/-- There are no more marks to hand on than versions, so the run has served them all. -/
theorem served_marks (s : Ssa) (c : Config) : ∃ n p, Served s c n p ∧ p.pending = [] ∧ marks s c = p.marks := by
  obtain ⟨k, hk, hend⟩ := served_run s.versions.length (Served.start (s := s) (c := c))
  refine ⟨k, _, hk, hend.elim id fun hk' => ?_, rfl⟩
  have hle := hk.le
  exact eq_nil_of_length_eq_zero (by omega)

theorem marks_closed (s : Ssa) (c : Config) : TaintClosed s c fun v => (marks s c).has v := by
  obtain ⟨n, p, hp, hdone, heq⟩ := served_marks s c
  exact heq ▸ hp.closed hdone

theorem marks_subset (hT : TaintClosed s c T) (hv : (marks s c).has v) : T v := by
  obtain ⟨n, p, hp, -, heq⟩ := served_marks s c
  exact hp.subset hT (heq ▸ hv)

/-- The marks are the least closed set, in whatever order they are served, and serving them ends. -/
theorem marks_least (s : Ssa) (c : Config) : (TaintClosed s c fun v => (marks s c).has v) ∧
    (∀ T, TaintClosed s c T → ∀ v, (marks s c).has v → T v) ∧
    (∃ n p, Served s c n p ∧ p.pending = [] ∧ marks s c = p.marks) ∧
    ∀ n p, Served s c n p → n ≤ s.versions.length ∧ (p.pending = [] → ∀ v, p.marks.has v = (marks s c).has v) := by
  refine ⟨marks_closed s c, fun T hT v => marks_subset hT, served_marks s c, fun n p hp => ?_⟩
  refine ⟨Nat.le_of_add_right_le hp.le, fun hdone v => ?_⟩
  exact Bool.eq_iff_iff.mpr ⟨hp.subset (marks_closed s c), marks_subset (hp.closed hdone)⟩

end SecScan.Taint
