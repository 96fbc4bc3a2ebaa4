import Mathlib.Data.List.Count
import SecScan.Proofs.Llm.Breaker

/-!
A circuit breaker that many clients share. A request is admitted, and some time later its result is
reported; the reports come in any order, and the breaker is not told whose result it hears.

How many requests wait while the breaker is half open is bounded by the late results it has heard:
results of requests that were admitted before it last left its closed phase, heard while it was half
open (`Traffic.Sound`). Each of them is taken for the result of the probe, so that one more probe is
let through. In the same way the successes that close the breaker are those of requests of its
half-open period and those of earlier ones together.
-/

namespace SecScan.Llm

open List Breaker

/-! ## Traffic -/

/-- What is remembered of an admitted request: how often the breaker had left its closed phase, and
how often it had become half open. -/
structure Ticket where
  era : Nat
  period : Nat
  deriving DecidableEq

/-- A result that the breaker was told, and how it stood when it heard it. -/
structure Report where
  ticket : Ticket
  success : Bool
  phase : Phase
  era : Nat
  period : Nat

/-- A breaker, the clock, the requests without a result and the results so far. -/
structure Traffic (τ : Type) where
  breaker : Breaker τ
  now : τ
  era : Nat := 0
  period : Nat := 0
  waiting : List Ticket := []
  reports : List Report := []

/-- What may happen next: time passes, some client makes a request, or some request ends. -/
inductive Act (τ : Type) where
  | tick (now : τ)
  | request
  | result (ticket : Ticket) (success : Bool)

namespace Traffic

variable {τ : Type} (σ : Traffic τ)

/-- Requests admitted since the breaker last left its closed phase that have no result yet. -/
def outstanding : Nat := σ.waiting.countP (·.era = σ.era)

/-- Results heard while half open, since the breaker last left its closed phase, of requests that
were admitted before. -/
def late : Nat := σ.reports.countP fun e => e.era = σ.era ∧ e.phase = .halfOpen ∧ e.ticket.era ≠ σ.era

/-- Successes of the half-open period, of requests that were admitted in it. -/
def own : Nat :=
  σ.reports.countP fun e => e.period = σ.period ∧ e.phase = .halfOpen ∧ e.success ∧ e.ticket.period = σ.period

/-- Successes of the half-open period, of requests that were admitted before it. -/
def stray : Nat :=
  σ.reports.countP fun e => e.period = σ.period ∧ e.phase = .halfOpen ∧ e.success ∧ e.ticket.period ≠ σ.period

/-- The breaker moves on; leaving the closed phase and becoming half open are counted. -/
def move (b : Breaker τ) : Traffic τ :=
  { σ with
    breaker := b
    era := if σ.breaker.phase = .closed ∧ b.phase ≠ .closed then σ.era + 1 else σ.era
    period := if σ.breaker.phase ≠ .halfOpen ∧ b.phase = .halfOpen then σ.period + 1 else σ.period }

def accept (b : Breaker τ) : Traffic τ :=
  { σ.move b with waiting := ⟨(σ.move b).era, (σ.move b).period⟩ :: σ.waiting }

def settle (r : Ticket) (success : Bool) : Traffic τ :=
  { σ.move (σ.breaker.hear σ.now success) with
    waiting := σ.waiting.erase r
    reports := ⟨r, success, σ.breaker.phase, σ.era, σ.period⟩ :: σ.reports }

variable {σ} {σ' : Traffic τ}

/-- One act; the clock does not go back, and a request has one result. -/
def step [Sub τ] [LE τ] [DecidableLE τ] (σ : Traffic τ) : Act τ → Option (Traffic τ)
  | .tick now => if σ.now ≤ now then some { σ with now := now } else none
  | .request =>
    match σ.breaker.allow σ.now with
    | (true, b) => some (σ.accept b)
    | (false, b) => some (σ.move b)
  | .result r success => if r ∈ σ.waiting then some (σ.settle r success) else none

def run [Sub τ] [LE τ] [DecidableLE τ] (σ : Traffic τ) (acts : List (Act τ)) : Option (Traffic τ) := acts.foldlM step σ

/-! ## What stays true -/

/-- Nothing is remembered of what is still to come. -/
structure Recorded (σ : Traffic τ) : Prop where
  stamped : ∀ r ∈ σ.waiting, r.era ≤ σ.era
  logged : ∀ e ∈ σ.reports, e.period ≤ σ.period

/-- The breaker hears of one probe at most, but for late results; and its successes are those of the
half-open period. -/
structure Sound (m n : Nat) (σ : Traffic τ) : Prop extends Recorded σ where
  consistent : σ.breaker.Consistent m n
  bounded : σ.breaker.phase ≠ .closed → σ.outstanding ≤ σ.breaker.inFlight.toNat + σ.late
  counted : σ.breaker.phase = .halfOpen → σ.breaker.successes = σ.own + σ.stray

variable {m n : Nat} {r : Ticket}

@[simp] theorem move_self (σ : Traffic τ) : σ.move σ.breaker = σ := by
  obtain ⟨b, _, _, _, _, _⟩ := σ
  cases hp : b.phase <;> simp [move, hp]

variable (success : Bool)

@[simp] theorem waiting_settle : (σ.settle r success).waiting = σ.waiting.erase r := rfl

@[simp] theorem reports_settle : (σ.settle r success).reports =
      ⟨r, success, σ.breaker.phase, σ.era, σ.period⟩ :: σ.reports := rfl

@[simp] theorem breaker_settle : (σ.settle r success).breaker = σ.breaker.hear σ.now success := rfl

theorem era_settle (h : σ.breaker.phase ≠ .closed) (success : Bool) : (σ.settle r success).era = σ.era := by
  simp [settle, move, h]

theorem period_settle (h : σ.breaker.phase ≠ .opened) (success : Bool) : (σ.settle r success).period = σ.period := by
  cases hp : σ.breaker.phase with
  | opened => exact absurd hp h
  | halfOpen => simp [settle, move, hp]
  | closed =>
    obtain ⟨k, hb | hb⟩ := hear_closed hp σ.now success <;>
      simp [settle, move, hb, hp, trip]

/-- Whatever result is heard while half open, the bound holds without a probe on its way: an own
result leaves one request fewer, a late one raises the bound. -/
theorem outstanding_settle (hp : σ.breaker.phase = .halfOpen) (hr : r ∈ σ.waiting)
    (hb : σ.outstanding ≤ 1 + σ.late) (success : Bool) :
    (σ.settle r success).outstanding ≤ (σ.settle r success).late := by
  have hera := era_settle (r := r) (σ := σ) (by simp [hp]) success
  have hless : (σ.waiting.erase r).countP (·.era = σ.era) ≤ σ.outstanding := List.Sublist.countP_le erase_sublist
  have hwaiting : (σ.settle r success).outstanding = (σ.waiting.erase r).countP (·.era = σ.era) := by
    rw [outstanding, hera, waiting_settle]
  by_cases h : r.era = σ.era
  · have hone : (σ.waiting.erase r).countP (·.era = σ.era) = σ.outstanding - 1 := by
      simp [countP_erase, outstanding, hr, h]
    have hlate : (σ.settle r success).late = σ.late := by simp [late, hera, h]
    omega
  · have hlate : (σ.settle r success).late = σ.late + 1 := by simp [late, hera, hp, h]
    omega

/-- A success heard while half open is one of this period or a stray one. -/
theorem own_add_stray_settle (hp : σ.breaker.phase = .halfOpen) :
    (σ.settle r true).own + (σ.settle r true).stray = σ.own + σ.stray + 1 := by
  have hperiod := period_settle (r := r) (σ := σ) (by simp [hp]) true
  by_cases h : r.period = σ.period
  · have hstray : (σ.settle r true).stray = σ.stray := by simp [stray, hperiod, h]
    have hown : (σ.settle r true).own = σ.own + 1 := by simp [own, hperiod, hp, h]
    omega
  · have hstray : (σ.settle r true).stray = σ.stray + 1 := by simp [stray, hperiod, hp, h]
    have hown : (σ.settle r true).own = σ.own := by simp [own, hperiod, h]
    omega

/-- Nothing was heard in a period that has not begun. -/
theorem Sound.unheard (h : σ.Sound m n) (p : Report → Bool) :
    σ.reports.countP (fun e => decide (e.period = σ.period + 1) && p e) = 0 := by
  refine countP_eq_zero.mpr fun e he => ?_
  have hlogged := h.logged e he
  simp only [Bool.and_eq_true, decide_eq_true_eq]
  omega

theorem Sound.outstanding_le (h : σ.Sound m n) (hp : σ.breaker.phase ≠ .closed) : σ.outstanding ≤ 1 + σ.late := by
  have hbound := h.bounded hp
  have hprobe := Bool.toNat_le σ.breaker.inFlight
  omega

/-! ### One act -/

theorem le_move (σ : Traffic τ) (b : Breaker τ) : σ.era ≤ (σ.move b).era ∧ σ.period ≤ (σ.move b).period := by
  simp only [move]
  constructor <;> split <;> omega

theorem Recorded.accept (h : σ.Recorded) (b : Breaker τ) : (σ.accept b).Recorded where
  stamped r hr := by
    rcases mem_cons.mp hr with rfl | hr
    · exact Nat.le_refl _
    · exact Nat.le_trans (h.stamped r hr) (σ.le_move b).1
  logged e he := Nat.le_trans (h.logged e he) (σ.le_move b).2

theorem Recorded.settle (h : σ.Recorded) (success : Bool) : (σ.settle r success).Recorded where
  stamped t ht := Nat.le_trans (h.stamped t (mem_of_mem_erase ht)) (σ.le_move _).1
  logged e he := by
    rcases mem_cons.mp he with rfl | he
    · exact (σ.le_move _).2
    · exact Nat.le_trans (h.logged e he) (σ.le_move _).2

/-- While the breaker is not half open, no probe is on its way and no success counts. -/
theorem Recorded.sound (h : σ.Recorded) (hc : σ.breaker.Consistent m n) (hphase : σ.breaker.phase ≠ .halfOpen)
    (hbounded : σ.breaker.phase ≠ .closed → σ.outstanding ≤ σ.late) : σ.Sound m n where
  toRecorded := h
  consistent := hc
  bounded := fun hp => by simpa [hc.idle hphase] using hbounded hp
  counted := fun hp => absurd hp hphase

section

variable (h : σ.Sound m n)
include h

theorem Sound.accept_closed (hp : σ.breaker.phase = .closed) : (σ.accept σ.breaker).Sound m n :=
  (h.accept σ.breaker).sound h.consistent (by simp [accept, move, hp]) fun hne => absurd hp hne

/-- A probe is let through; one that begins a half-open period finds that nothing was heard in it. -/
theorem Sound.accept_probe (hp : σ.breaker.phase ≠ .closed) (hidle : σ.breaker.inFlight = false)
    {b : Breaker τ} (hc : b.Consistent m n) (hprobe : b.inFlight = true)
    (hcounted : b.successes = (σ.move b).own + (σ.move b).stray) : (σ.accept b).Sound m n := by
  have hbound : σ.outstanding ≤ σ.late := by simpa [hidle] using h.bounded hp
  have hera : (σ.move b).era = σ.era := by simp [move, hp]
  refine ⟨h.accept b, hc, fun _ => ?_, fun _ => hcounted⟩
  simp only [outstanding, late] at hbound
  simp [outstanding, late, accept, hera]
  simp [move, hprobe] at hbound ⊢
  omega

theorem Sound.settle_closed (hp : σ.breaker.phase = .closed) (success : Bool) : (σ.settle r success).Sound m n := by
  have hc := h.consistent.hear σ.now success
  obtain ⟨k, hb | hb⟩ := hear_closed hp σ.now success
  · exact (h.settle success).sound hc (by simp [hb, hp]) (by simp [hb, hp])
  · -- none of the requests that wait was admitted after the breaker has opened
    have hnone : (σ.settle r success).outstanding = 0 := by
      have hera : (σ.settle r success).era = σ.era + 1 := by simp [settle, move, hb, hp, trip]
      refine countP_eq_zero.mpr fun t ht => ?_
      have := h.stamped t (mem_of_mem_erase ht)
      simp only [hera, decide_eq_true_eq]
      omega
    exact (h.settle success).sound hc (by simp [hb, trip]) (by simp [hnone])

theorem Sound.settle_opened (hp : σ.breaker.phase = .opened) (success : Bool) : (σ.settle r success).Sound m n := by
  have hidle := h.consistent.idle (by simp [hp])
  have hb := hear_opened hp σ.now success
  have hera := era_settle (r := r) (σ := σ) (by simp [hp]) success
  have hless : (σ.settle r success).outstanding ≤ σ.outstanding := by
    rw [outstanding, hera, waiting_settle]
    exact List.Sublist.countP_le erase_sublist
  have hlate : (σ.settle r success).late = σ.late := by simp [late, hera, hp]
  refine (h.settle success).sound (h.consistent.hear σ.now success) (by simp [hb, hp]) fun _ => ?_
  have hbound := h.bounded (by simp [hp])
  rw [hidle, Bool.toNat_false] at hbound
  omega

theorem Sound.settle_halfOpen (hp : σ.breaker.phase = .halfOpen)
    (hr : r ∈ σ.waiting) (success : Bool) : (σ.settle r success).Sound m n := by
  have hc := h.consistent.hear σ.now success
  have hbound := outstanding_settle hp hr (h.outstanding_le (by simp [hp])) success
  have hcounted : success = true → σ.breaker.successes + 1 = (σ.settle r success).own + (σ.settle r success).stray := by
    rintro rfl
    rw [own_add_stray_settle hp, h.counted hp]
  cases success with
  | false =>
    have hb := hear_halfOpen_failure hp σ.now
    exact (h.settle false).sound hc (by simp [hb, trip]) fun _ => hbound
  | true =>
    have hb := hear_halfOpen_success hp σ.now
    by_cases hclose : σ.breaker.successThreshold.reached (σ.breaker.successes + 1)
    · rw [if_pos hclose] at hb
      exact (h.settle true).sound hc (by simp [hb, close]) fun _ => hbound
    · rw [if_neg hclose] at hb
      exact {
        toRecorded := h.settle true
        consistent := hc
        bounded := by simpa [hb] using fun _ => hbound
        counted := by simpa [hb] using fun _ => hcounted rfl }

/-- The successes that close a breaker, this one among them, are just enough. -/
theorem Sound.own_add_stray (hp : σ.breaker.phase = .halfOpen) (hclosed : (σ.settle r true).breaker.phase = .closed) :
    (σ.settle r true).own + (σ.settle r true).stray = n := by
  have hcounted := h.counted hp
  have hfew := h.consistent.successes_lt
  rw [breaker_settle, hear_halfOpen_success hp] at hclosed
  split at hclosed
  · rename_i hreached
    have hn : n ≤ σ.breaker.successes + 1 := by simpa [h.consistent.successThreshold, Threshold.reached] using hreached
    rw [own_add_stray_settle hp]
    omega
  · simp [hp] at hclosed

end

section run

variable [Sub τ] [LE τ] [DecidableLE τ]

theorem Sound.step (h : σ.Sound m n) {a : Act τ} (hs : σ.step a = some σ') : σ'.Sound m n := by
  cases a with
  | tick now =>
    simp only [Traffic.step, Option.ite_none_right_eq_some, Option.some.injEq] at hs
    obtain ⟨-, rfl⟩ := hs
    exact ⟨⟨h.stamped, h.logged⟩, h.consistent, h.bounded, h.counted⟩
  | request =>
    simp only [Traffic.step] at hs
    split at hs
    · rename_i b hb
      obtain rfl := Option.some.inj hs
      have hadmitted : (σ.breaker.allow σ.now).1 = true := by rw [hb]
      have hsnd : (σ.breaker.allow σ.now).2 = b := by rw [hb]
      have hc := h.consistent.allow σ.now
      rcases allow_admitted hadmitted with ⟨hp, he⟩ | ⟨hp, he⟩ | ⟨hp, hidle, he⟩
      · rw [← hsnd, he]
        exact h.accept_closed hp
      · rw [← hsnd, he]
        refine h.accept_probe (by simp [hp]) (h.consistent.idle (by simp [hp])) (he ▸ hc) rfl ?_
        simp [own, stray, move, hp, halfOpen, h.unheard]
      · rw [← hsnd, he]
        exact h.accept_probe (by simp [hp]) hidle (he ▸ hc) rfl (by simpa [own, stray, move, hp] using h.counted hp)
    · rename_i b hb
      obtain rfl := Option.some.inj hs
      have hsame : b = σ.breaker := by
        have hrefused : (σ.breaker.allow σ.now).1 = false := by rw [hb]
        simpa [hb] using allow_refused hrefused
      rwa [hsame, move_self]
  | result r success =>
    simp only [Traffic.step, Option.ite_none_right_eq_some, Option.some.injEq] at hs
    obtain ⟨hr, rfl⟩ := hs
    cases hp : σ.breaker.phase with
    | closed => exact h.settle_closed hp success
    | opened => exact h.settle_opened hp success
    | halfOpen => exact h.settle_halfOpen hp hr success

theorem Sound.run {acts : List (Act τ)} (h : σ.Sound m n) (hr : σ.run acts = some σ') : σ'.Sound m n := by
  induction acts generalizing σ with
  | nil =>
    obtain rfl := Option.some.inj hr
    exact h
  | cons a acts ih =>
    obtain ⟨σ₁, hs, hr⟩ := Option.bind_eq_some_iff.mp hr
    exact ih (h.step hs) hr

/-- Only a success closes a half-open breaker. -/
theorem result_of_closed {a : Act τ} (hs : σ.step a = some σ') (hp : σ.breaker.phase = .halfOpen)
    (hclosed : σ'.breaker.phase = .closed) :
    ∃ r ∈ σ.waiting, a = .result r true ∧ σ' = σ.settle r true := by
  cases a with
  | tick now =>
    simp only [Traffic.step, Option.ite_none_right_eq_some, Option.some.injEq] at hs
    obtain ⟨-, rfl⟩ := hs
    simp [hp] at hclosed
  | request =>
    simp only [Traffic.step, allow_halfOpen hp] at hs
    cases hf : σ.breaker.inFlight <;> simp [hf] at hs <;> subst hs <;>
      simp [accept, move, hp] at hclosed
  | result r success =>
    simp only [Traffic.step, Option.ite_none_right_eq_some, Option.some.injEq] at hs
    obtain ⟨hr, rfl⟩ := hs
    cases success with
    | true => exact ⟨r, hr, rfl, rfl⟩
    | false => simp [hear_halfOpen_failure hp, trip] at hclosed

end run

section fresh

variable [Zero τ] [LT τ] [DecidableLT τ]

def fresh (failures successes : Int) (recovery start : τ) : Traffic τ where
  breaker := .of ⟨.ofInt failures, recovery, .ofInt successes⟩
  now := start

theorem sound_fresh (failures successes : Int) (recovery start : τ) :
    (fresh failures successes recovery start).Sound (max 1 failures).toNat (max 1 successes).toNat where
  consistent := consistent_of failures successes recovery
  stamped := by simp [fresh]
  logged := by simp [fresh]
  bounded := fun h => absurd rfl h
  counted := fun h => by simp [fresh, of] at h

variable [Sub τ] [LE τ] [DecidableLE τ]

/-- However many clients share a breaker and in whatever order their results come in: while it is
half open, the requests that were admitted since it last left the closed phase and have no result
yet are one at most, and one more for every late result it heard since. It closes on a success, and
then the successes of its half-open period, own and stray ones together, are as many as it asks
for. -/
theorem outstanding_of_run (failures successes : Int) (recovery start : τ) (acts : List (Act τ))
    (σ : Traffic τ) (h : (fresh failures successes recovery start).run acts = some σ) :
    (σ.breaker.phase = .halfOpen → σ.outstanding ≤ 1 + σ.late) ∧
    ∀ a σ', σ.step a = some σ' → σ.breaker.phase = .halfOpen → σ'.breaker.phase = .closed →
      (∃ r ∈ σ.waiting, a = .result r true) ∧ σ'.own + σ'.stray = (max 1 successes).toNat := by
  have hsound := (sound_fresh failures successes recovery start).run h
  refine ⟨fun hp => hsound.outstanding_le (by simp [hp]), fun a σ' hs hp hclosed => ?_⟩
  obtain ⟨r, hr, rfl, rfl⟩ := result_of_closed hs hp hclosed
  exact ⟨⟨r, hr, rfl⟩, hsound.own_add_stray hp hclosed⟩

end fresh

/-! ## Late results -/

/-- Three requests are admitted, and the first result, a failure, opens the breaker. A probe is let
through after the pause; then the late success of one of the three lets a second one through. -/
def lateResults : List (Act Number) :=
  [.request, .request, .request, .result ⟨0, 0⟩ false, .tick (.whole 10), .request, .result ⟨0, 0⟩ true, .request]

/-- The last of the three then closes the breaker, while both probes wait. -/
theorem any_run_lateResults : ((fresh 1 2 (.whole 10) (.whole 0)).run lateResults).any (fun σ =>
      σ.breaker.phase = .halfOpen ∧ σ.outstanding = 2 ∧ σ.late = 1 ∧
      (σ.step (.result ⟨0, 0⟩ true)).any fun σ' => σ'.breaker.phase = .closed ∧ σ'.own = 0) := by
  decide +kernel

theorem outstanding_of_lateResults : ∃ σ σ', (fresh 1 2 (.whole 10) (.whole 0)).run lateResults = some σ ∧
      σ.breaker.phase = .halfOpen ∧ σ.outstanding ≤ 1 + σ.late ∧
      σ.step (.result ⟨0, 0⟩ true) = some σ' ∧ σ'.breaker.phase = .closed ∧
      σ'.own + σ'.stray = 2 := by
  obtain ⟨σ, hrun, h⟩ := (Option.any_eq_true _ _).mp any_run_lateResults
  obtain ⟨hp, -, -, h⟩ := of_decide_eq_true h
  obtain ⟨σ', hstep, h⟩ := (Option.any_eq_true _ _).mp h
  obtain ⟨hclosed, -⟩ := of_decide_eq_true h
  obtain ⟨hbound, hclose⟩ := outstanding_of_run 1 2 (Number.whole 10) (.whole 0) lateResults σ hrun
  exact ⟨σ, σ', hrun, hp, hbound hp, hstep, hclosed, (hclose _ σ' hstep hp hclosed).2⟩

/-- Two probes wait at once, and the breaker closes although no request of its half-open period has
succeeded. -/
theorem closed_by_late_results : ∃ σ σ', (fresh 1 2 (.whole 10) (.whole 0)).run lateResults = some σ ∧
      σ.breaker.phase = .halfOpen ∧ σ.outstanding = 2 ∧
      σ.step (.result ⟨0, 0⟩ true) = some σ' ∧ σ'.breaker.phase = .closed ∧ σ'.own = 0 := by
  obtain ⟨σ, hrun, h⟩ := (Option.any_eq_true _ _).mp any_run_lateResults
  obtain ⟨hp, htwo, -, h⟩ := of_decide_eq_true h
  obtain ⟨σ', hstep, h⟩ := (Option.any_eq_true _ _).mp h
  obtain ⟨hclosed, hown⟩ := of_decide_eq_true h
  exact ⟨σ, σ', hrun, hp, htwo, hstep, hclosed, hown⟩

end Traffic

end SecScan.Llm
