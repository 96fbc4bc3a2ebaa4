import SecScan.Proofs.Keyed
import SecScan.Training.Evaluation

/-!
Evaluation of a batch. The evaluation goes on over failures and over answers that are no JSON or null; it ends at an
answer that reads as anything else but an object (`Legible`). An object is counted in one of the four classes unless
its verdict differs from the truth and has still the same truth value (`evades`): every object that does not
evade is counted once (`objects_classed`).
-/

namespace SecScan.Training

open List Value

/-- Reasoning is cut out of an answer once: a block within an opening tag leaves a block behind. -/
theorem reasoning_left :
    (Llm.splitReasoning "<thin<thinking></thinking>king>x</thinking>").1 = "<thinking>x</thinking>" ∧
    (Llm.splitReasoning "<thinking>x</thinking>").1 = "" := by decide +kernel

/-- The object that a reply reads as. -/
def objectOf? : Try Value → Option Value
  | .ok (.text s) => (readAnswer s).toOption.join.filter isMap
  | _ => none

/-- What an evaluation goes on after: a failure, and a text that is no JSON, null or an object. -/
def Legible (r : Try Value) : Prop :=
  ∀ s, r = .ok (.text s) → ∃ a, readAnswer s = .ok a ∧ ∀ v, a = some v → v = .null ∨ v.isMap = true

def verdictOf (v : Value) : Value := v.getD "is_vulnerable" (.bool false)

/-- An object whose verdict is neither the truth nor opposed to it. -/
def evades (reply : Try Value) (truth : Value) : Bool :=
  (objectOf? reply).any fun v =>
    !(verdictOf v).same (verdictOf truth) && (verdictOf v).truthy == (verdictOf truth).truthy

/-- The examples with the replies to them. -/
def graded (replies : List (Try Value)) (expected : List Value) : List (Try Value × Value) :=
  expected.zipIdx.map fun p => (replies.getD p.2 (.error .outOfRange), p.1)

def Tally.classed (t : Tally) : Nat := t.truePositives + t.trueNegatives + t.falsePositives + t.falseNegatives

/-! ## One reply -/

variable {t : Tally} {reply : Try Value} {truth : Value}

theorem verdict_map {v : Value} (h : v.isMap = true) : verdict v = .ok (verdictOf v) := by
  cases v <;> first | rfl | cases h

theorem classed_count (t : Tally) (predicted truth : Value) :
    (t.count predicted truth).classed + (if !predicted.same truth && predicted.truthy == truth.truthy then 1 else 0)
      = t.classed + 1 := by
  unfold Tally.count Tally.classed
  cases predicted.same truth <;> cases predicted.truthy <;> cases truth.truthy <;> simp <;> omega

theorem legible_text {s : String} {a : Option Value} (ha : readAnswer s = .ok a) :
    Legible (.ok (.text s)) ↔ ∀ v, a = some v → v = .null ∨ v.isMap = true := by
  constructor
  · intro h
    obtain ⟨a', ha', hv⟩ := h s rfl
    rw [ha] at ha'
    cases ha'
    exact hv
  · intro hv s' hs'
    cases hs'
    exact ⟨a, ha, hv⟩

theorem objectOf?_text {s : String} {a : Option Value} (ha : readAnswer s = .ok a) :
    objectOf? (.ok (.text s)) = a.filter isMap := by
  simp only [objectOf?, ha, Except.toOption, Option.join_some]

/-- A text that can be read ends the evaluation if it is no object, or is counted as far as it is one. -/
theorem read_cases (t : Tally) {s : String} {a : Option Value} (ha : readAnswer s = .ok a)
    (htruth : truth.isMap = true) :
    (¬ Legible (.ok (.text s)) ∧ ∃ e, t.step (.ok (.text s)) truth = .error e) ∨
    (Legible (.ok (.text s)) ∧ ∃ t', t.step (.ok (.text s)) truth = .ok t' ∧
      t'.classed + (if evades (.ok (.text s)) truth then 1 else 0)
        = t.classed + if (objectOf? (.ok (.text s))).isSome then 1 else 0) := by
  simp only [legible_text ha, Tally.step, replyText, bind, Except.bind, ha, evades, objectOf?_text ha]
  rcases a with - | v
  · exact .inr ⟨(fun v h => nomatch h), t, rfl, rfl⟩
  by_cases hmap : v.isMap = true
  · refine .inr ⟨fun v' hv' => .inr (Option.some.inj hv' ▸ hmap), t.count (verdictOf v) (verdictOf truth), ?_, ?_⟩
    · have hverdict := verdict_map hmap
      cases v <;> first | simp only [verdict_map htruth, hverdict]; rfl | cases hmap
    · simpa [hmap] using classed_count t (verdictOf v) (verdictOf truth)
  · cases v with
    | null => exact .inr ⟨(fun v hv => .inl (Option.some.inj hv).symm), t, rfl, rfl⟩
    | map es => exact absurd rfl hmap
    | _ =>
      refine .inl ⟨fun h => ?_, _, by simp only [verdict_map htruth]; rfl⟩
      rcases h _ rfl with h | h <;> cases h

/-- A reply ends the evaluation, or is counted as far as it is an object. -/
theorem step_cases (t : Tally) (hreply : ∀ v, reply = .ok v → v.isText = true) (htruth : truth.isMap = true) :
    (¬ Legible reply ∧ ∃ e, t.step reply truth = .error e) ∨
    (Legible reply ∧ ∃ t', t.step reply truth = .ok t' ∧
      t'.classed + (if evades reply truth then 1 else 0) = t.classed + if (objectOf? reply).isSome then 1 else 0) := by
  cases reply with
  | error e => exact .inr ⟨(fun s h => nomatch h), t, rfl, rfl⟩
  | ok v =>
    obtain ⟨s, rfl⟩ : ∃ s, v = .text s := by
      have := hreply v rfl
      cases v <;> first | exact ⟨_, rfl⟩ | cases this
    cases ha : readAnswer s with
    | ok a => exact read_cases t ha htruth
    | error e =>
      refine .inl ⟨fun hlegible => ?_, e, by simp [Tally.step, replyText, bind, Except.bind, ha]⟩
      obtain ⟨a, ha', -⟩ := hlegible s rfl
      rw [ha] at ha'
      cases ha'

/-! ## A batch -/

theorem run_cases (ps : List (Try Value × Value)) (t : Tally)
    (hps : ∀ p ∈ ps, (∀ v, p.1 = .ok v → v.isText = true) ∧ p.2.isMap = true) :
    match ps.foldlM (fun t p => t.step p.1 p.2) t with
    | .ok t' => (∀ p ∈ ps, Legible p.1) ∧
        t'.classed + ps.countP (fun p => evades p.1 p.2) = t.classed + ps.countP fun p => (objectOf? p.1).isSome
    | .error _ => ∃ p ∈ ps, ¬ Legible p.1 := by
  induction ps generalizing t with
  | nil => simp [pure, Except.pure]
  | cons p ps ih =>
    obtain ⟨hreply, htruth⟩ := hps p (by simp)
    rw [foldlM_cons]
    rcases step_cases t hreply htruth with ⟨hillegible, e, hstep⟩ | ⟨hlegible, t', hstep, hcount⟩
    · rw [hstep]
      exact ⟨p, by simp, hillegible⟩
    · have ih := ih t' fun q hq => hps q (by simp [hq])
      rw [hstep]
      change match ps.foldlM (fun t p => t.step p.1 p.2) t' with | .ok _ => _ | .error _ => _
      cases hrun : ps.foldlM (fun t p => t.step p.1 p.2) t' with
      | error e =>
        rw [hrun] at ih
        obtain ⟨q, hq, hillegible⟩ := ih
        exact ⟨q, by simp [hq], hillegible⟩
      | ok t'' =>
        rw [hrun] at ih
        refine ⟨forall_mem_cons.mpr ⟨hlegible, ih.1⟩, ?_⟩
        rw [countP_cons, countP_cons]
        omega

theorem evades_of_bool {a b : Bool} {v : Value} (hobject : objectOf? reply = some v) (hv : verdictOf v = .bool a)
    (htruth : verdictOf truth = .bool b) : evades reply truth = false := by
  rw [evades, hobject, Option.any_some, hv, htruth]
  cases a <;> cases b <;> simp [same, truthy]

theorem mem_graded {replies : List (Try Value)} {expected : List Value} {p : Try Value × Value}
    (hp : p ∈ graded replies expected) : (∀ v, p.1 = .ok v → .ok v ∈ replies) ∧ p.2 ∈ expected := by
  obtain ⟨⟨e, i⟩, he, rfl⟩ := mem_map.mp hp
  refine ⟨fun v hv => ?_, fst_mem_of_mem_zipIdx he⟩
  rw [getD_eq_getElem?_getD] at hv
  cases hr : replies[i]? with
  | none => rw [hr] at hv; cases hv
  | some r => exact mem_of_getElem? (hr.trans (congrArg some (by simpa [hr] using hv)))

/-- An evaluation comes to its end exactly if each reply can be gone on after. The objects are then counted once each,
those that evade apart; where verdicts and truths are truth values none does. -/
theorem objects_classed {replies : List (Try Value)} {expected : List Value}
    (hreplies : ∀ v, .ok v ∈ replies → v.isText = true) (hexpected : ∀ e ∈ expected, e.isMap = true) :
    ((∃ t, evaluate replies expected = .ok t) ↔ ∀ p ∈ graded replies expected, Legible p.1) ∧
    ∀ t, evaluate replies expected = .ok t →
      t.classed + (graded replies expected).countP (fun p => evades p.1 p.2)
        = (graded replies expected).countP (fun p => (objectOf? p.1).isSome) ∧
      ((∀ p ∈ graded replies expected, ∀ v, objectOf? p.1 = some v →
          ∃ a b, verdictOf v = .bool a ∧ verdictOf p.2 = .bool b) →
        t.classed = (graded replies expected).countP fun p => (objectOf? p.1).isSome) := by
  have hrun := run_cases (graded replies expected) { total := expected.length } fun p hp =>
    ⟨fun v hv => hreplies v ((mem_graded hp).1 v hv), hexpected p.2 (mem_graded hp).2⟩
  have heval : evaluate replies expected
      = (graded replies expected).foldlM (fun t p => t.step p.1 p.2) { total := expected.length } := by
    rw [evaluate, graded, foldlM_map]
  rw [← heval] at hrun
  cases hresult : evaluate replies expected with
  | error e =>
    rw [hresult] at hrun
    obtain ⟨p, hp, hillegible⟩ := hrun
    refine ⟨⟨?_, fun hlegible => absurd (hlegible p hp) hillegible⟩, nofun⟩
    rintro ⟨t, ⟨⟩⟩
  | ok t =>
    rw [hresult] at hrun
    obtain ⟨hlegible, hclassed⟩ := hrun
    rw [show Tally.classed { total := expected.length } = 0 from rfl, Nat.zero_add] at hclassed
    refine ⟨⟨fun _ => hlegible, fun _ => ⟨t, rfl⟩⟩, fun t' ht' => ?_⟩
    cases ht'
    refine ⟨hclassed, fun hbool => ?_⟩
    have hnone : (graded replies expected).countP (fun p => evades p.1 p.2) = 0 := by
      rw [countP_eq_zero]
      intro p hp
      cases hobject : objectOf? p.1 with
      | none => simp [evades, hobject]
      | some v =>
        obtain ⟨a, b, hv, htruth⟩ := hbool p hp v hobject
        simp [evades_of_bool hobject hv htruth]
    rwa [hnone] at hclassed

def vulnerable : Value := .obj [("is_vulnerable", .bool true)]

def unsure : Try Value := .ok (.text "\x7b\"is_vulnerable\": \"yes\"\x7d")

/-- One reply evades, and one has no verdict. -/
def sampleReplies : List (Try Value) := [unsure, .ok (.text "\x7b\x7d")]

theorem objects_classed_sample :
    ∃ t, evaluate sampleReplies [vulnerable, .map []] = .ok t ∧ t.classed + 1 = 2 := by
  obtain ⟨-, hcount⟩ := @objects_classed sampleReplies [vulnerable, .map []]
    (by simp [sampleReplies, unsure, isText]) (by simp [vulnerable, obj, isMap])
  have hok : (evaluate sampleReplies [vulnerable, .map []]).toOption.isSome = true := by decide +kernel
  have hevades : (graded sampleReplies [vulnerable, .map []]).countP (fun p => evades p.1 p.2) = 1 := by
    decide +kernel
  have hobjects : (graded sampleReplies [vulnerable, .map []]).countP
      (fun p => (objectOf? p.1).isSome) = 2 := by decide +kernel
  obtain ⟨t, ht⟩ := Option.isSome_iff_exists.mp hok
  rw [toOption_eq_some] at ht
  exact ⟨t, ht, (congrArg (t.classed + ·) hevades.symm).trans ((hcount t ht).1.trans hobjects)⟩

/-- A list ends the evaluation, and a verdict that is no truth value is not counted. -/
theorem replies_not_counted :
    (evaluate [.ok (.text "[]")] [vulnerable]).toOption.isNone = true ∧
    (evaluate [unsure] [vulnerable]).toOption.map Tally.classed = some 0 := by
  decide +kernel

end SecScan.Training
