import Mathlib.Algebra.Order.BigOperators.Group.List
import Mathlib.Algebra.Order.Ring.Int
import SecScan.Llm.Budget
import SecScan.Proofs.Keyed

/-!
The tokens of a scan. A request that is admitted counts for its estimate until its response reports how many tokens it
has used; the responses come in any order. What the gate has in its one counter is the sum over all requests
(`Ledger.Balanced`). An estimate that is replaced is part of the sum, so taking it back does not lead below zero, and
the gate keeps to its limit right after each admission.
-/

namespace SecScan

open List Value

variable {prompt : Value}

namespace Value

theorem plus_int (a b : Int) : plus (.int a) (.int b) = .ok (.int (a + b)) := rfl

theorem more_int (a b : Int) : more (.int a) (.int b) = .ok (decide (b < a)) := by
  have hcompare : more (.int a) (.int b) = .ok (compare a b == .gt) := by rfl
  rw [hcompare]
  congr 1
  rw [Bool.eq_iff_iff]
  simp [compare_gt_iff_gt]

theorem larger_zero {n : Int} (h : 0 ≤ n) : larger (.int 0) (.int n) = .ok (.int n) := by
  rw [larger, more_int]
  rcases h.eq_or_lt with rfl | h
  · rfl
  · simp [bind, Except.bind, h, pure, Except.pure]

theorem eq_nat_of_nat? {v : Value} (h : v.nat?.isSome = true) : ∃ n : Nat, v = .nat n ∧ v.nat? = some n := by
  cases v with
  | int n =>
    have hn : 0 ≤ n := by
      by_contra hneg
      simp [nat?, hneg] at h
    exact ⟨n.toNat, by simp [nat, hn], by simp [nat?, hn]⟩
  | _ => simp [nat?] at h

end Value

namespace Llm

/-- Whether the numbers that a response reports are natural ones. -/
def isCounted (response : Value) : Bool :=
  match reportedUsage response with
  | .ok (some (p, c)) => p.nat?.isSome && c.nat?.isSome
  | _ => true

namespace Gate

variable {g g' : Gate} {now : Float} {s : Sender} {d : Decision} {response : Value}

/-! ## One admission -/

/-- Either nothing changes, or the estimate of an admitted request fits and is set aside. -/
theorem evaluate_cases (h : g.evaluate now prompt s = .ok (d, g')) :
    d.allowed = false ∧ g' = g ∨ d.allowed = true ∧ g'.budget = g.budget
      ∧ (∃ n : Nat, plus (.nat n) g.budget.maxCompletion = .ok d.tokens)
      ∧ exceeds g.tokensUsed d.tokens g.budget.maxTokens = .ok false
      ∧ g.tokensUsed.plus d.tokens = .ok g'.tokensUsed := by
  have hrefused : ∀ {why : String}, (⟨false, why, .int 0, .float 0.0⟩, g) = (d, g') → d.allowed = false ∧ g' = g := by
    rintro why ⟨⟩
    exact ⟨rfl, rfl⟩
  unfold evaluate at h
  split at h
  · exact .inl (hrefused (Except.ok.inj h))
  obtain ⟨limited, -, h⟩ := bind_eq_ok.mp h
  split at h
  · exact .inl (hrefused (Except.ok.inj h))
  obtain ⟨text, -, h⟩ := bind_eq_ok.mp h
  obtain ⟨tokens, htokens, h⟩ := bind_eq_ok.mp h
  obtain ⟨exceeded, hover, h⟩ := bind_eq_ok.mp h
  split at h
  · exact .inl (hrefused (Except.ok.inj h))
  next hfits =>
  obtain ⟨cost, -, h⟩ := bind_eq_ok.mp h
  obtain ⟨costly, -, h⟩ := bind_eq_ok.mp h
  split at h
  · exact .inl (hrefused (Except.ok.inj h))
  obtain ⟨used, hused, h⟩ := bind_eq_ok.mp h
  obtain ⟨paid, -, h⟩ := bind_eq_ok.mp h
  obtain ⟨rfl, rfl⟩ := Prod.mk.inj (Except.ok.inj h)
  exact .inr ⟨rfl, rfl, ⟨_, htokens⟩, by rw [hover, Bool.eq_false_of_not_eq_true hfits], hused⟩

/-- What is admitted under a limit fits into it. -/
theorem tokens_le_of_allowed {t e m : Int} (h : g.evaluate now prompt s = .ok (d, g'))
    (hallowed : d.allowed = true) (ht : g.tokensUsed = .int t) (he : d.tokens = .int e)
    (hm : g.budget.maxTokens = .int m) : t + e ≤ m := by
  obtain ⟨hrefused, -⟩ | ⟨-, -, -, hfits, -⟩ := evaluate_cases h
  · rw [hallowed] at hrefused
    cases hrefused
  · rw [exceeds, hm, ht, he] at hfits
    have hover : (int (t + e)).more (.int m) = .ok false := hfits
    rw [more_int] at hover
    simpa using Except.ok.inj hover

/-! ## One response -/

def counted (g : Gate) (now : Float) (s : Sender) (response : Value) : Option Nat :=
  if response.truthy && (g.noteLimit now s response).isOk then
    match reportedUsage response with
    | .ok (some (p, c)) => do return (← p.nat?) + (← c.nat?)
    | _ => none
  else none

theorem noteLimit_eq (h : g.noteLimit now s response = .ok g') : ∃ l, g' = { g with limitedUntil := l } := by
  obtain ⟨status, -, h⟩ := bind_eq_ok.mp h
  split at h
  · obtain ⟨late, -, h⟩ := bind_eq_ok.mp h
    obtain ⟨-, -, h⟩ := bind_eq_ok.mp h
    exact ⟨_, (Except.ok.inj h).symm⟩
  · exact ⟨_, (Except.ok.inj h).symm⟩

section Recording

variable {t e : Int} (ht : g.tokensUsed = .int t) (hd : d.tokens = .int e)
include ht hd

theorem corrected_eq (n : Nat) : g.corrected (.nat n) d = .ok (.int (t + (n - e))) := by
  rw [corrected, hd, ht]
  rfl

variable (hroom : ∀ n : Nat, 0 ≤ t + (n - e))
include hroom

theorem settle_tokens (provider : Value) (p c : Nat) : (g.settle provider (.nat p) (.nat c) d).2.budget = g.budget
    ∧ (g.settle provider (.nat p) (.nat c) d).2.tokensUsed = .int (t + ((p + c : Nat) - e)) := by
  have hrecount : g.recount (.nat p) (.nat c) d
      = .ok (.nat (p + c), { g with tokensUsed := .int (t + ((p + c : Nat) - e)) }) := by
    have hsum : plus (.nat p) (.nat c) = .ok (.nat (p + c)) := by simp [nat, plus_int]
    rw [recount, hsum]
    simp only [bind, Except.bind, corrected_eq ht hd, larger_zero (hroom _)]
    rfl
  simp only [settle, hrecount]
  cases hprice : reprice { g with tokensUsed := .int (t + ((p + c : Nat) - e)) } provider (.nat (p + c)) d with
  | error f => exact ⟨rfl, rfl⟩
  | ok g₁ =>
    obtain ⟨cost, -, h⟩ := bind_eq_ok.mp hprice
    obtain ⟨delta, -, h⟩ := bind_eq_ok.mp h
    obtain ⟨paid, -, h⟩ := bind_eq_ok.mp h
    obtain ⟨used, -, h⟩ := bind_eq_ok.mp h
    obtain rfl := Except.ok.inj h
    exact ⟨rfl, rfl⟩

/-- A response replaces the estimate if its tokens are counted, and else changes nothing of the sum. -/
theorem record_tokens (hcounted : isCounted response = true) (now : Float) (s : Sender) :
    (g.record now s response d).2.budget = g.budget ∧ (g.record now s response d).2.tokensUsed
      = .int ((g.counted now s response).elim t fun n => t + (n - e)) := by
  rw [record, counted]
  cases htruthy : response.truthy with
  | false => exact ⟨rfl, ht⟩
  | true =>
    cases hlimit : g.noteLimit now s response with
    | error f => exact ⟨rfl, ht⟩
    | ok g₁ =>
      obtain ⟨l, rfl⟩ := noteLimit_eq hlimit
      cases husage : reportedUsage response with
      | error f => exact ⟨rfl, ht⟩
      | ok usage =>
        cases usage with
        | none => exact ⟨rfl, ht⟩
        | some counts =>
          obtain ⟨p, c⟩ := counts
          simp only [isCounted, husage, Bool.and_eq_true] at hcounted
          obtain ⟨m, rfl, hm⟩ := eq_nat_of_nat? hcounted.1
          obtain ⟨n, rfl, hn⟩ := eq_nat_of_nat? hcounted.2
          simp only [hm, hn]
          exact settle_tokens (g := { g with limitedUntil := l }) ht hd hroom s.provider m n

end Recording

end Gate

/-! ## The ledger -/

/-- An admitted request, and the tokens that its response has reported, if they are known. -/
structure Entry where
  decision : Decision
  actual : Option Nat := none

namespace Entry

def estimate (e : Entry) : Int := e.decision.tokens.int?.getD 0

/-- What a request counts for. -/
def amount (e : Entry) : Int := e.actual.elim e.estimate (↑)

end Entry

/-- A gate and the requests that it has admitted. -/
structure Ledger where
  gate : Gate
  entries : List Entry := []

/-- A prompt is put to the gate, or a response to one of the admitted requests is recorded. -/
inductive Turn where
  | evaluate (now : Float) (prompt : Value) (s : Sender)
  | record (now : Float) (s : Sender) (response : Value) (k : Nat)

namespace Ledger

variable {d : Decision}

def total (l : Ledger) : Int := (l.entries.map (·.amount)).sum

/-- No response so far has used more than its estimate. -/
def Frugal (l : Ledger) : Prop := ∀ e ∈ l.entries, ∀ n, e.actual = some n → (n : Int) ≤ e.estimate

/-- One turn; a response has natural numbers, and its request is one whose tokens are not known yet. -/
def step (l : Ledger) : Turn → Option Ledger
  | .evaluate now prompt s =>
    match l.gate.evaluate now prompt s with
    | .ok (d, g) => some ⟨g, if d.allowed then l.entries ++ [{ decision := d }] else l.entries⟩
    | .error _ => some l
  | .record now s response k =>
    match l.entries[k]? with
    | some ⟨d, none⟩ =>
      if isCounted response then
        some ⟨(l.gate.record now s response d).2, l.entries.set k ⟨d, l.gate.counted now s response⟩⟩
      else none
    | _ => none

def run (b : Budget) (turns : List Turn) : Option Ledger := turns.foldlM step { gate := { budget := b } }

/-- The counter of the gate is the sum of what its requests count for. -/
structure Balanced (b : Budget) (l : Ledger) : Prop where
  budget : l.gate.budget = b
  estimates : ∀ e ∈ l.entries, e.decision.tokens = .int e.estimate ∧ 0 ≤ e.estimate
  balance : l.gate.tokensUsed = .int l.total
  bounded : ∀ m : Nat, b.maxTokens = .nat m → l.Frugal → l.total ≤ m

variable {b : Budget} {c : Nat} {l l' : Ledger}

theorem balanced_start (b : Budget) : Balanced b { gate := { budget := b } } where
  budget := rfl
  estimates := by simp
  balance := rfl
  bounded m _ _ := by simp [total]

theorem Balanced.amount_le (h : Balanced b l) {e : Entry} (he : e ∈ l.entries) : e.amount ≤ l.total := by
  refine single_le_sum ?_ _ (mem_map_of_mem he)
  intro n hn
  obtain ⟨e', he', rfl⟩ := mem_map.mp hn
  cases hactual : e'.actual with
  | none => simpa [Entry.amount, hactual] using (h.estimates e' he').2
  | some n => simp [Entry.amount, hactual]

theorem total_concat (g : Gate) (es : List Entry) (e : Entry) :
    total ⟨g, es ++ [e]⟩ = (es.map (·.amount)).sum + e.amount := by
  simp [total]

theorem total_set {es : List Entry} {k : Nat} {e : Entry} (hk : es[k]? = some e) (g : Gate) (e' : Entry) :
    total ⟨g, es.set k e'⟩ = (es.map (·.amount)).sum + (e'.amount - e.amount) := by
  obtain ⟨hlt, hget⟩ := List.getElem?_eq_some_iff.mp hk
  rw [total, List.map_set, List.sum_set', dif_pos (by simpa using hlt), List.getElem_map, hget]
  omega

/-- An estimate that is taken back leaves a natural number. -/
theorem Balanced.room (h : Balanced b l) (he : ⟨d, none⟩ ∈ l.entries) (n : Nat) :
    0 ≤ l.total + (n - Entry.estimate ⟨d, none⟩) := by
  have hle : Entry.estimate ⟨d, none⟩ ≤ l.total := h.amount_le he
  omega

theorem Balanced.evaluate (h : Balanced b l) (hc : b.maxCompletion = .nat c) {now : Float} {s : Sender}
    {g : Gate} (heval : l.gate.evaluate now prompt s = .ok (d, g)) (hallowed : d.allowed = true) :
    Balanced b ⟨g, l.entries ++ [{ decision := d }]⟩ ∧ ∀ m : Int, b.maxTokens = .int m →
      total ⟨g, l.entries ++ [{ decision := d }]⟩ ≤ m := by
  obtain ⟨hrefused, -⟩ | ⟨-, hbudget, ⟨n, hn⟩, -, hused⟩ := Gate.evaluate_cases heval
  · rw [hallowed] at hrefused
    cases hrefused
  have htokens : d.tokens = .int (n + c : Int) := by
    rw [h.budget, hc] at hn
    exact (Except.ok.inj hn).symm
  have hestimate : Entry.estimate ⟨d, none⟩ = n + c := by rw [Entry.estimate, htokens]; rfl
  have htotal : total ⟨g, l.entries ++ [{ decision := d }]⟩ = l.total + (n + c) := by
    rw [total_concat, Entry.amount, Option.elim_none, hestimate]
    rfl
  have hfits : ∀ m : Int, b.maxTokens = .int m → total ⟨g, l.entries ++ [{ decision := d }]⟩ ≤ m := by
    intro m hm
    rw [htotal]
    exact Gate.tokens_le_of_allowed heval hallowed h.balance htokens (by rw [h.budget, hm])
  refine ⟨⟨hbudget.trans h.budget, ?_, ?_, fun m hm _ => hfits m hm⟩, hfits⟩
  · simp only [forall_mem_append, forall_mem_singleton]
    exact ⟨h.estimates, by rw [hestimate, htokens], by omega⟩
  · rw [htotal]
    rw [h.balance, htokens] at hused
    exact (Except.ok.inj hused).symm

theorem Balanced.record (h : Balanced b l) {now : Float} {s : Sender} {response : Value} {k : Nat}
    (hk : l.entries[k]? = some ⟨d, none⟩) (hcounted : isCounted response = true) :
    Balanced b ⟨(l.gate.record now s response d).2, l.entries.set k ⟨d, l.gate.counted now s response⟩⟩ := by
  have hd : ⟨d, none⟩ ∈ l.entries := mem_of_getElem? hk
  obtain ⟨htokens, hnatural⟩ := h.estimates _ hd
  obtain ⟨hbudget, hused⟩ := Gate.record_tokens h.balance htokens (h.room hd) hcounted now s
  have htotal := total_set hk (l.gate.record now s response d).2 ⟨d, l.gate.counted now s response⟩
  refine ⟨hbudget.trans h.budget, ?_, ?_, ?_⟩
  · intro e he
    rcases mem_or_eq_of_mem_set he with he | rfl
    · exact h.estimates e he
    · exact ⟨htokens, hnatural⟩
  · rw [hused, htotal]
    cases l.gate.counted now s response with
    | none => simp [Entry.amount, total, Entry.estimate]
    | some n => rfl
  · intro m hm hfrugal
    -- what was known before is still known, so the requests were frugal before as well
    have hbefore : l.Frugal := by
      intro e he n hn
      obtain ⟨i, hi⟩ := getElem?_of_mem he
      have hne : k ≠ i := by
        rintro rfl
        rw [hk] at hi
        obtain rfl := Option.some.inj hi
        cases hn
      exact hfrugal e (mem_of_getElem? ((getElem?_set_ne hne).trans hi)) n hn
    have hle : (⟨d, l.gate.counted now s response⟩ : Entry).amount ≤ (⟨d, none⟩ : Entry).amount := by
      cases hactual : l.gate.counted now s response with
      | none => exact le_rfl
      | some n =>
        have hlt := (List.getElem?_eq_some_iff.mp hk).1
        exact hfrugal ⟨d, some n⟩ (by rw [hactual]; exact List.mem_set hlt _) n rfl
    have hold := h.bounded m hm hbefore
    rw [htotal]
    rw [total] at hold
    omega

theorem Balanced.step (h : Balanced b l) (hc : b.maxCompletion = .nat c) {t : Turn} (hstep : l.step t = some l') :
    Balanced b l' := by
  cases t with
  | evaluate now prompt s =>
    rw [Ledger.step] at hstep
    cases heval : l.gate.evaluate now prompt s with
    | error f =>
      rw [heval] at hstep
      exact Option.some.inj hstep ▸ h
    | ok r =>
      obtain ⟨d, g⟩ := r
      rw [heval] at hstep
      obtain rfl := Option.some.inj hstep
      cases hallowed : d.allowed with
      | true => exact (h.evaluate hc heval hallowed).1
      | false =>
        obtain ⟨-, rfl⟩ | ⟨hyes, -⟩ := Gate.evaluate_cases heval
        · exact h
        · rw [hallowed] at hyes
          cases hyes
  | record now s response k =>
    rw [Ledger.step] at hstep
    split at hstep
    · next d hk =>
      split at hstep
      · next hcounted => exact Option.some.inj hstep ▸ h.record hk hcounted
      · cases hstep
    · cases hstep

theorem Balanced.foldlM (h : Balanced b l) (hc : b.maxCompletion = .nat c) {turns : List Turn}
    (hturns : turns.foldlM Ledger.step l = some l') : Balanced b l' := by
  induction turns generalizing l with
  | nil => exact Option.some.inj hturns ▸ h
  | cons t turns ih =>
    rw [foldlM_cons, Option.bind_eq_bind, Option.bind_eq_some_iff] at hturns
    obtain ⟨l₁, hstep, hturns⟩ := hturns
    exact ih (h.step hc hstep) hturns

/-- After any turns the counter is the sum over the admitted requests; no response that may come can take it below
zero; the next request is admitted only within the limit; and as long as the responses are frugal the counter is. -/
theorem tokens_accounted {b : Budget} {c : Nat} (hc : b.maxCompletion = .nat c) {turns : List Turn} {l : Ledger}
    (hrun : run b turns = some l) :
    l.gate.tokensUsed = .int l.total
    ∧ (∀ e ∈ l.entries, e.decision.tokens = .int e.estimate)
    ∧ (∀ e ∈ l.entries, e.actual = none → ∀ n : Nat, ∃ m : Nat, l.gate.corrected (.nat n) e.decision = .ok (.nat m))
    ∧ (∀ now prompt s d g, l.gate.evaluate now prompt s = .ok (d, g) → d.allowed = true →
      ∀ m : Int, b.maxTokens = .int m → ∃ n : Int, g.tokensUsed = .int n ∧ n ≤ m)
    ∧ ∀ m : Nat, b.maxTokens = .nat m → l.Frugal → l.total ≤ m := by
  have h : Balanced b l := (balanced_start b).foldlM hc hrun
  refine ⟨h.balance, fun e he => (h.estimates e he).1, ?_, ?_, h.bounded⟩
  · rintro ⟨d, actual⟩ he rfl n
    obtain ⟨m, hm⟩ := Int.eq_ofNat_of_zero_le (h.room he n)
    exact ⟨m, by rw [Gate.corrected_eq h.balance (h.estimates _ he).1, hm]; rfl⟩
  · intro now prompt s d g heval hallowed m hm
    obtain ⟨hnext, hfits⟩ := h.evaluate hc heval hallowed
    exact ⟨_, hnext.balance, hfits m hm⟩

/-- Two requests are admitted, and then the response to the first one comes. -/
def twoRequests (used : Nat) : List Turn :=
  [.evaluate 0 (.text "") ⟨true, .text "openai"⟩, .evaluate 0 (.text "") ⟨true, .text "openai"⟩,
    .record 0 ⟨true, .text "openai"⟩ (.obj [("raw", .obj [("usage", .obj [("prompt_tokens", .nat used)])])]) 0]

theorem twoRequests_accounted : ∃ l, run { maxTokens := .int 2, maxCompletion := .int 0 } (twoRequests 3) = some l
    ∧ l.gate.tokensUsed = .int 3 := by
  have hsome : (run { maxTokens := .int 2, maxCompletion := .int 0 } (twoRequests 3)).map total = some 3 := by
    decide +kernel
  obtain ⟨l, hl, htotal⟩ := Option.map_eq_some_iff.mp hsome
  exact ⟨l, hl, htotal ▸ (tokens_accounted (c := 0) rfl hl).1⟩

/-- With a negative allowance for what the model makes the estimates are negative, and the counter stays at zero where
the sum is below it. -/
theorem counter_cut : (run { maxCompletion := .int (-10) } (twoRequests 0)).map
    (fun l => (l.total, l.gate.tokensUsed.int?)) = some (-10, some 0) := by
  decide +kernel

end Ledger

end Llm

end SecScan
