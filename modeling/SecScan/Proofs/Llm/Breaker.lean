import SecScan.Llm.Breaker

/-!
The fields of a circuit breaker. What each call does in each phase, and what the phase, the time of
opening, the counts and the probe have to do with each other after any calls (`Consistent`).
-/

namespace SecScan.Llm

namespace Breaker

variable {τ : Type} {b : Breaker τ} {now : τ}

section allow

variable [Sub τ] [LE τ] [DecidableLE τ]

theorem allow_closed (h : b.phase = .closed) : b.allow now = (true, b) := by simp [allow, h]

theorem allow_halfOpen (h : b.phase = .halfOpen) :
    b.allow now = if b.inFlight then (false, b) else (true, { b with inFlight := true }) := by
  simp [allow, h]

theorem allow_opened {t : τ} (h : b.phase = .opened) (ht : b.openedAt = some t) : b.allow now =
      if b.recovery ≤ now - t then (true, { b.halfOpen with inFlight := true }) else (false, b) := by
  simp [allow, h, ht]

/-- A refused request leaves no trace. -/
theorem allow_refused (h : (b.allow now).1 = false) : (b.allow now).2 = b := by
  cases hp : b.phase with
  | closed => rw [allow_closed hp]
  | halfOpen =>
    rw [allow_halfOpen hp] at h ⊢
    split <;> simp_all
  | opened =>
    cases ht : b.openedAt with
    | none => simp [allow, hp, ht]
    | some t =>
      rw [allow_opened hp ht] at h ⊢
      split <;> simp_all

/-- The three ways in which a request is admitted. -/
theorem allow_admitted (h : (b.allow now).1 = true) : (b.phase = .closed ∧ (b.allow now).2 = b) ∨
    (b.phase = .opened ∧ (b.allow now).2 = { b.halfOpen with inFlight := true }) ∨
    (b.phase = .halfOpen ∧ b.inFlight = false ∧ (b.allow now).2 = { b with inFlight := true }) := by
  cases hp : b.phase with
  | closed => simp [allow_closed hp]
  | halfOpen =>
    rw [allow_halfOpen hp] at h ⊢
    split at h <;> simp_all
  | opened =>
    cases ht : b.openedAt with
    | none => simp [allow, hp, ht] at h
    | some t =>
      rw [allow_opened hp ht] at h ⊢
      split at h <;> simp_all

end allow

/-- Hears the result of a request. -/
def hear (b : Breaker τ) (now : τ) (success : Bool) : Breaker τ :=
  if success then b.recordSuccess else b.recordFailure now

theorem hear_opened (h : b.phase = .opened) (now : τ) (success : Bool) : b.hear now success = b := by
  cases success <;> simp [hear, recordSuccess, recordFailure, h]

theorem hear_closed_success (h : b.phase = .closed) (now : τ) : b.hear now true = { b with failures := 0 } := by
  simp [hear, recordSuccess, h]

theorem hear_closed_failure (h : b.phase = .closed) (now : τ) : b.hear now false =
      if b.failureThreshold.reached (b.failures + 1) then
        { b with failures := b.failures + 1 }.trip now
      else { b with failures := b.failures + 1 } := by
  simp [hear, recordFailure, h]

/-- In the closed phase a result changes the count of failures, and may open the breaker. -/
theorem hear_closed (h : b.phase = .closed) (now : τ) (success : Bool) :
    ∃ n, b.hear now success = { b with failures := n } ∨ b.hear now success = { b with failures := n }.trip now := by
  cases success with
  | true => exact ⟨0, .inl (hear_closed_success h now)⟩
  | false =>
    rw [hear_closed_failure h]
    refine ⟨b.failures + 1, ?_⟩
    split
    · exact .inr rfl
    · exact .inl rfl

theorem hear_halfOpen_failure (h : b.phase = .halfOpen) (now : τ) :
    b.hear now false = { b with inFlight := false }.trip now := by
  simp [hear, recordFailure, h]

theorem hear_halfOpen_success (h : b.phase = .halfOpen) (now : τ) : b.hear now true =
      if b.successThreshold.reached (b.successes + 1) then
        { b with inFlight := false, successes := b.successes + 1 }.close
      else { b with inFlight := false, successes := b.successes + 1 } := by
  simp [hear, recordSuccess, h]


/-! ## The fields in each phase -/

/-- A breaker that opens after `m` failures and closes after `n` successes has a time of opening
just while it is open, and it counts failures only while closed, successes only while half open. -/
structure Consistent (m n : Nat) (b : Breaker τ) : Prop where
  failureThreshold : b.failureThreshold = some m
  successThreshold : b.successThreshold = some n
  opened : b.openedAt.isSome ↔ b.phase = .opened
  failures : b.phase ≠ .closed → b.failures = 0
  failures_lt : b.failures < m
  successes : b.phase ≠ .halfOpen → b.successes = 0
  successes_lt : b.successes < n
  probe : b.inFlight → b.phase = .halfOpen

namespace Consistent

variable {m n : Nat}

theorem idle (h : b.Consistent m n) (hp : b.phase ≠ .halfOpen) : b.inFlight = false := by
  simpa using mt h.probe hp

theorem allow [Sub τ] [LE τ] [DecidableLE τ] (h : b.Consistent m n) (now : τ) :
    (b.allow now).2.Consistent m n := by
  cases hadmit : (b.allow now).1 with
  | false => rwa [allow_refused hadmit]
  | true =>
    rcases allow_admitted hadmit with ⟨-, he⟩ | ⟨hp, he⟩ | ⟨hp, -, he⟩ <;> rw [he]
    · exact h
    · have hfailures := h.failures (by simp [hp])
      exact { h with opened := by simp [halfOpen]
                     failures := fun _ => hfailures
                     successes := fun _ => rfl
                     successes_lt := Nat.zero_lt_of_lt h.successes_lt
                     probe := fun _ => rfl }
    · exact { h with probe := fun _ => hp }

/-- Opening clears both counts; the probe has to have ended before. -/
theorem trip (hm : b.failureThreshold = some m) (hn : b.successThreshold = some n) (hm0 : 0 < m) (hn0 : 0 < n)
    (hidle : b.inFlight = false) (now : τ) : (b.trip now).Consistent m n where
  failureThreshold := hm
  successThreshold := hn
  opened := by simp [Breaker.trip]
  failures _ := rfl
  failures_lt := hm0
  successes _ := rfl
  successes_lt := hn0
  probe := by simp [Breaker.trip, hidle]

theorem hear (h : b.Consistent m n) (now : τ) (success : Bool) : (b.hear now success).Consistent m n := by
  have hm := Nat.zero_lt_of_lt h.failures_lt
  have hn := Nat.zero_lt_of_lt h.successes_lt
  cases hp : b.phase with
  | opened => rwa [hear_opened hp]
  | closed =>
    cases success with
    | true =>
      rw [hear_closed_success hp]
      exact { h with failures := fun _ => rfl, failures_lt := hm }
    | false =>
      rw [hear_closed_failure hp]
      split
      · exact trip h.failureThreshold h.successThreshold hm hn (h.idle (by simp [hp])) now
      · rename_i hfew
        exact { h with failures := fun hne => absurd hp hne
                       failures_lt := by simpa [h.failureThreshold, Threshold.reached] using hfew }
  | halfOpen =>
    cases success with
    | true =>
      rw [hear_halfOpen_success hp]
      split
      · exact ⟨h.failureThreshold, h.successThreshold, by simp [close], fun _ => rfl, hm, fun _ => rfl, hn,
          by simp [close]⟩
      · rename_i hfew
        exact { h with successes := fun hne => absurd hp hne
                       successes_lt := by simpa [h.successThreshold, Threshold.reached] using hfew
                       probe := fun hprobe => by simp at hprobe }
    | false =>
      rw [hear_halfOpen_failure hp]
      exact trip (b := { b with inFlight := false }) h.failureThreshold h.successThreshold hm hn rfl now

end Consistent

theorem consistent_of [Zero τ] [LT τ] [DecidableLT τ] (failures successes : Int) (recovery : τ) :
    (of ⟨.ofInt failures, recovery, .ofInt successes⟩).Consistent (max 1 failures).toNat (max 1 successes).toNat where
  failureThreshold := rfl
  successThreshold := rfl
  opened := by simp [of]
  failures _ := rfl
  failures_lt := show 0 < (max 1 failures).toNat by omega
  successes _ := rfl
  successes_lt := show 0 < (max 1 successes).toNat by omega
  probe := by simp [of]

/-- What a breaker may be asked or told. -/
inductive Call where
  | allow
  | success
  | failure

variable [Sub τ] [LE τ] [DecidableLE τ]

/-- A call, with the time that the clock shows. -/
def call (b : Breaker τ) : τ × Call → Breaker τ
  | (now, .allow) => (b.allow now).2
  | (_, .success) => b.recordSuccess
  | (now, .failure) => b.recordFailure now

theorem Consistent.call {m n : Nat} (h : b.Consistent m n) (c : τ × Call) : (b.call c).Consistent m n := by
  obtain ⟨now, c⟩ := c
  cases c with
  | allow => exact h.allow now
  | success => exact h.hear now true
  | failure => exact h.hear now false

theorem Consistent.calls {m n : Nat} (h : b.Consistent m n) (cs : List (τ × Call)) :
    (cs.foldl Breaker.call b).Consistent m n := by
  induction cs generalizing b with
  | nil => exact h
  | cons c cs ih => exact ih (h.call c)

/-- Whatever calls a breaker gets, in any order and whatever the clock shows: it has a time of opening
just while it is open, so an open breaker always knows since when. Failures are counted only while it is
closed and successes and probes only while it is half open, and no count reaches its threshold. -/
theorem fields_consistent [Zero τ] [LT τ] [DecidableLT τ] (failures successes : Int) (recovery : τ)
    (cs : List (τ × Call)) :
    let b := cs.foldl call (of ⟨.ofInt failures, recovery, .ofInt successes⟩)
    (b.openedAt.isSome ↔ b.phase = .opened) ∧
    (b.phase ≠ .closed → b.failures = 0) ∧ b.failures < max 1 failures ∧
    (b.phase ≠ .halfOpen → b.successes = 0) ∧ b.successes < max 1 successes ∧
    (b.inFlight → b.phase = .halfOpen) := by
  intro b
  have h : b.Consistent _ _ := (consistent_of failures successes recovery).calls cs
  have hfailures := h.failures_lt
  have hsuccesses := h.successes_lt
  exact ⟨h.opened, h.failures, by omega, h.successes, by omega, h.probe⟩

end Breaker

end SecScan.Llm
