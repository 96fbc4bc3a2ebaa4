import SecScan.Llm.Gateway
import SecScan.Proofs.Llm.Cache
import SecScan.Proofs.Llm.Probes

/-!
Questions that go through the gateway one after another, with one breaker and one cache for all of
them. A turn is a question and the gateway it met; what a turn does is said once (`Turn.cases`), and the
rest follows along the list of turns: the breaker counts the failures in a row (`Ready`), it refuses
until its pause is over (`blocked`), and a kept answer is given again (`answered_of_kept`). Times are of any
kind that can be subtracted and compared, rounded ones too: the pause is over if the difference says so.
-/

namespace SecScan.Llm

open List Json Breaker

theorem Cache.get_of_null {c : Cache} (h : c.freshness.ttl = .null) (now : Value) (key : String) :
    c.get now (.text key) = (.ok ((Value.under? (.text key) c.entries).map (·.response)), c) := by
  have hfixed : (Value.text key).requireFixed = .ok () := rfl
  have hvalid : ∀ e : CacheEntry, c.freshness.isValid now e.updatedAt = .ok true := by
    intro e
    rw [Freshness.isValid, h]
    rfl
  rw [get, hfixed]
  cases hunder : Value.under? (.text key) c.entries with
  | none => rfl
  | some e => simp [hvalid]

namespace Gateway

variable {τ : Type}

/-! ## Turns -/

def kept (g : Gateway τ) (key : String) : Option Value :=
  ((Value.under? (.text key) g.cache.entries).map (·.response)).filter (!·.isNull)

/-- While nothing is forgotten, the model is asked only for what is not kept. -/
theorem analyze_of_null [Sub τ] [LE τ] [DecidableLE τ] {g : Gateway τ}
    (h : g.cache.freshness.ttl = .null) (now done : Moment τ) (q : Prompt)
    (reply : Try Value) :
    g.analyze now done q reply = match g.key q with
      | .error f => (⟨.error f, false⟩, g)
      | .ok k =>
        match g.kept k with
        | some v => (⟨.ok v, false⟩, g)
        | none => g.ask now done k reply := by
  rw [analyze]
  cases g.key q with
  | error f => rfl
  | ok k =>
    simp only [Cache.get_of_null h, kept]
    cases (Value.under? (.text k) g.cache.entries).map (·.response) with
    | none => rfl
    | some v => cases v <;> rfl

/-- A question for a model, and what the model would say and when. -/
structure Call (τ : Type) where
  backend : Backend
  prompt : Prompt
  now : Moment τ
  done : Moment τ
  reply : Try String

structure Turn (τ : Type) where
  call : Call τ
  before : Gateway τ

namespace Turn

/-- The gateway as the question sees it. -/
def door (t : Turn τ) : Gateway τ := { t.before with backend := t.call.backend }

def key (t : Turn τ) : Try String := t.door.key t.call.prompt

variable [Sub τ] [LE τ] [DecidableLE τ] (t : Turn τ)

def result : Outcome × Gateway τ :=
  t.door.analyze t.call.now t.call.done t.call.prompt (t.call.reply.map .text)

def outcome : Outcome := t.result.1

def after : Gateway τ := t.result.2

/-- What the breaker says to the question. -/
def allowed : Bool := (t.before.breaker.allow t.call.now.steady).1

/-- The breaker while the model is asked. -/
def during : Breaker τ := (t.before.breaker.allow t.call.now.steady).2

/-- Whether the model was asked and failed. -/
def failed : Bool := t.outcome.asked && !t.call.reply.isOk

/-- Whether this question has opened the breaker. -/
def opened : Bool := t.outcome.asked && t.after.breaker.phase = .opened

/-- What a turn does if the cache forgets nothing: it does not ask the model and changes nothing, or
it asks for an answer that is not kept. -/
theorem cases (hc : t.before.cache.freshness.ttl = .null) :
    (t.outcome.asked = false ∧ t.after.breaker = t.before.breaker ∧
      t.after.cache = t.before.cache ∧ (∀ f, t.key = .error f → t.outcome.answer = .error f) ∧
      ∀ k, t.key = .ok k → (∃ v, t.before.kept k = some v ∧ t.outcome.answer = .ok v) ∨
        (t.before.kept k = none ∧ t.allowed = false ∧ t.outcome.answer = .error refused)) ∨
    (t.outcome.asked = true ∧ t.allowed = true ∧ t.after.breaker = t.during.hear t.call.done.steady t.call.reply.isOk ∧
      ∃ k, t.key = .ok k ∧ t.before.kept k = none ∧ ((∃ f, t.call.reply = .error f ∧ t.outcome.answer = .error f ∧
          t.after.cache = t.before.cache) ∨
        ∃ s, t.call.reply = .ok s ∧ t.outcome.answer = .ok (.text s) ∧
          t.after.cache = t.before.cache.set t.call.done.wall (.text k) (.text s))) := by
  have hresult : t.result = _ := analyze_of_null (g := t.door) hc ..
  cases hkey : t.key with
  | error f =>
    have hkey' : t.door.key t.call.prompt = .error f := hkey
    rw [hkey'] at hresult
    rw [outcome, after, hresult]
    refine .inl ⟨rfl, rfl, rfl, fun f' hf => ?_, nofun⟩
    obtain rfl := Except.error.inj hf
    rfl
  | ok k =>
    have hkey' : t.door.key t.call.prompt = .ok k := hkey
    cases hkept : t.before.kept k with
    | some v =>
      have hkept' : t.door.kept k = some v := hkept
      simp only [hkey', hkept'] at hresult
      rw [outcome, after, hresult]
      refine .inl ⟨rfl, rfl, rfl, nofun, fun k' hk => ?_⟩
      obtain rfl := Except.ok.inj hk
      exact .inl ⟨v, hkept, rfl⟩
    | none =>
      have hkept' : t.door.kept k = none := hkept
      have hsplit : t.door.breaker.allow t.call.now.steady = (t.allowed, t.during) := rfl
      simp only [hkey', hkept', ask, hsplit] at hresult
      cases hallow : t.allowed with
      | false =>
        have hsame : t.during = t.before.breaker := allow_refused hallow
        rw [hallow] at hresult
        rw [outcome, after, hresult]
        refine .inl ⟨rfl, hsame, rfl, nofun, fun k' hk => ?_⟩
        obtain rfl := Except.ok.inj hk
        exact .inr ⟨hkept, rfl, rfl⟩
      | true =>
        rw [hallow] at hresult
        rw [outcome, after, hresult]
        cases t.call.reply with
        | error f => exact .inr ⟨rfl, rfl, rfl, k, rfl, hkept, .inl ⟨f, rfl, rfl, rfl⟩⟩
        | ok s => exact .inr ⟨rfl, rfl, rfl, k, rfl, hkept, .inr ⟨s, rfl, rfl, rfl⟩⟩

/-- The model is asked in the closed phase or as a probe. -/
theorem during_cases {t : Turn τ} (h : t.allowed = true) :
    (t.before.breaker.phase = .closed ∧ t.during = t.before.breaker) ∨
    (t.during.phase = .halfOpen ∧ t.during.failureThreshold = t.before.breaker.failureThreshold ∧
      t.during.recovery = t.before.breaker.recovery) := by
  rcases allow_admitted h with ⟨hp, he⟩ | ⟨hp, he⟩ | ⟨hp, -, he⟩
  · exact .inl ⟨hp, he⟩
  · refine .inr ?_
    rw [during, he]
    exact ⟨rfl, rfl, rfl⟩
  · refine .inr ?_
    rw [during, he]
    exact ⟨hp, rfl, rfl⟩

end Turn

section turns

variable [Sub τ] [LE τ] [DecidableLE τ]

/-- The turns of questions that are asked one after another. -/
def turns (g : Gateway τ) : List (Call τ) → List (Turn τ)
  | [] => []
  | c :: calls => ⟨c, g⟩ :: turns (Turn.after ⟨c, g⟩) calls

/-- How often the model failed in a row, of late and in the closed phase. The newest turn comes
first. -/
def streak : List (Turn τ) → Nat
  | [] => 0
  | t :: past =>
    if !t.outcome.asked then streak past
    else if t.during.phase = .closed ∧ t.failed then streak past + 1
    else 0

/-- A gateway between two questions: no probe is on its way, failures in a row are counted, and an
open breaker knows when it was opened. -/
structure Ready (pause : τ) (limit : Nat) (past : List (Turn τ)) (g : Gateway τ) : Prop where
  lasting : g.cache.freshness.ttl = .null
  limited : g.breaker.failureThreshold = some limit
  paused : g.breaker.recovery = pause
  idle : g.breaker.inFlight = false
  counted : g.breaker.phase = .closed → g.breaker.failures = streak past ∧ streak past < limit
  dated : g.breaker.phase = .opened → ∃ t ∈ past, t.opened ∧ g.breaker.openedAt = some t.call.done.steady

variable {pause : τ} {limit : Nat} {past : List (Turn τ)} {t : Turn τ}

theorem Turn.lasting_after (h : t.before.cache.freshness.ttl = .null) : t.after.cache.freshness.ttl = .null := by
  rcases t.cases h with ⟨-, -, hc, -⟩ | ⟨-, -, -, k, -, -, ⟨f, -, -, hc⟩ | ⟨s, -, -, hc⟩⟩ <;>
    rw [hc] <;> exact h

theorem Turn.still (h : t.before.cache.freshness.ttl = .null) (hasked : t.outcome.asked = false) :
    t.after.breaker = t.before.breaker := by
  rcases t.cases h with ⟨-, hb, -⟩ | ⟨hasked', -⟩
  · exact hb
  · rw [hasked] at hasked'
    cases hasked'

theorem Ready.unasked (h : Ready pause limit past t.before) (hasked : t.outcome.asked = false)
    (hb : t.after.breaker = t.before.breaker) : Ready pause limit (t :: past) t.after where
  lasting := t.lasting_after h.lasting
  limited := hb ▸ h.limited
  paused := hb ▸ h.paused
  idle := hb ▸ h.idle
  counted := by
    have hstreak : streak (t :: past) = streak past := by simp [streak, hasked]
    rw [hb, hstreak]
    exact h.counted
  dated := by
    rw [hb]
    intro hp
    obtain ⟨u, hu, hrest⟩ := h.dated hp
    exact ⟨u, mem_cons_of_mem _ hu, hrest⟩

/-- The model fails as a probe, or so often in a row that the limit is reached. -/
def Turn.Opens (limit : Nat) (past : List (Turn τ)) (t : Turn τ) : Prop :=
  t.failed ∧ ((t.during.phase = .closed ∧ streak past + 1 = limit) ∨ t.during.phase = .halfOpen)

section

variable (h : Ready pause limit past t.before) (hlimit : 0 < limit)
include h hlimit

/-- What the model says opens the breaker, or it is counted and the breaker is not open. -/
theorem Ready.asked (hasked : t.outcome.asked = true)
    (hallowed : t.allowed = true) (hb : t.after.breaker = t.during.hear t.call.done.steady t.call.reply.isOk) :
    (t.after.breaker.failureThreshold = some limit ∧ t.after.breaker.recovery = pause ∧
      t.after.breaker.inFlight = false) ∧
    ((t.Opens limit past ∧ t.after.breaker.phase = .opened ∧ t.after.breaker.openedAt = some t.call.done.steady) ∨
      (¬ t.Opens limit past ∧ t.after.breaker.phase ≠ .opened ∧ (t.after.breaker.phase = .closed →
        t.after.breaker.failures = streak (t :: past) ∧ streak (t :: past) < limit))) := by
  have hfailed : t.failed = !t.call.reply.isOk := by simp [Turn.failed, hasked]
  rw [hb]
  rcases Turn.during_cases hallowed with ⟨hp, hd⟩ | ⟨hp, hthreshold, hrecovery⟩
  · obtain ⟨hfailures, hless⟩ := h.counted hp
    rw [hd]
    cases hok : t.call.reply.isOk with
    | true =>
      rw [hear_closed_success hp]
      refine ⟨⟨h.limited, h.paused, h.idle⟩, .inr ⟨by simp [Turn.Opens, hfailed, hok], by simp [hp], fun _ => ?_⟩⟩
      simp [streak, hasked, hfailed, hok, hlimit]
    | false =>
      have hstreak : streak (t :: past) = streak past + 1 := by simp [streak, hasked, hd, hp, hfailed, hok]
      have hreached : t.before.breaker.failureThreshold.reached (t.before.breaker.failures + 1) =
          decide (limit ≤ streak past + 1) := by
        simp [h.limited, Threshold.reached, hfailures]
      rw [hear_closed_failure hp, hreached, hstreak]
      by_cases hr : limit ≤ streak past + 1
      · rw [if_pos (by simpa using hr)]
        exact ⟨⟨h.limited, h.paused, h.idle⟩, .inl ⟨⟨by simp [hfailed, hok], .inl ⟨hd ▸ hp, by omega⟩⟩, rfl, rfl⟩⟩
      · rw [if_neg (by simpa using hr)]
        have hopens : ¬ t.Opens limit past := by
          simp only [Turn.Opens, hd, hp]
          rintro ⟨-, ⟨-, heq⟩ | hhalf⟩
          · omega
          · cases hhalf
        exact ⟨⟨h.limited, h.paused, h.idle⟩, .inr ⟨hopens, by simp [hp],
          fun _ => ⟨congrArg (· + 1) hfailures, by omega⟩⟩⟩
  · have hlimited := hthreshold.trans h.limited
    have hpaused := hrecovery.trans h.paused
    cases hok : t.call.reply.isOk with
    | false =>
      rw [hear_halfOpen_failure hp]
      exact ⟨⟨hlimited, hpaused, rfl⟩, .inl ⟨⟨by simp [hfailed, hok], .inr hp⟩, rfl, rfl⟩⟩
    | true =>
      have hopens : ¬ t.Opens limit past := by simp [Turn.Opens, hfailed, hok]
      rw [hear_halfOpen_success hp]
      split
      · refine ⟨⟨hlimited, hpaused, rfl⟩, .inr ⟨hopens, by simp [close], fun _ => ?_⟩⟩
        simp [close, streak, hasked, hp, hlimit]
      · exact ⟨⟨hlimited, hpaused, rfl⟩, .inr ⟨hopens, by simp [hp], fun hc => by simp [hp] at hc⟩⟩

theorem Ready.after : Ready pause limit (t :: past) t.after := by
  have hlasting := t.lasting_after h.lasting
  rcases t.cases h.lasting with ⟨hasked, hb, -⟩ | ⟨hasked, hallowed, hb, -⟩
  · exact h.unasked hasked hb
  · obtain ⟨⟨hlimited, hpaused, hidle⟩, ⟨-, hp, hat⟩ | ⟨-, hp, hcounted⟩⟩ := h.asked hlimit hasked hallowed hb
    · exact ⟨hlasting, hlimited, hpaused, hidle, by simp [hp],
        fun _ => ⟨t, mem_cons_self, by simp [Turn.opened, hasked, hp], hat⟩⟩
    · exact ⟨hlasting, hlimited, hpaused, hidle, hcounted, fun ho => absurd ho hp⟩

theorem Ready.opened_iff : t.opened ↔ t.Opens limit past := by
  rcases t.cases h.lasting with ⟨hasked, -⟩ | ⟨hasked, hallowed, hb, -⟩
  · simp [Turn.opened, Turn.Opens, Turn.failed, hasked]
  · obtain ⟨-, ⟨hopens, hp, -⟩ | ⟨hopens, hp, -⟩⟩ := h.asked hlimit hasked hallowed hb
    · simp [Turn.opened, hasked, hp, hopens]
    · simp [Turn.opened, hasked, hp, hopens]

theorem Ready.openedAt (ho : t.opened) :
    t.after.breaker.phase = .opened ∧ t.after.breaker.openedAt = some t.call.done.steady := by
  rcases t.cases h.lasting with ⟨hasked, -⟩ | ⟨hasked, hallowed, hb, -⟩
  · simp [Turn.opened, hasked] at ho
  · obtain ⟨-, ⟨-, hopened⟩ | ⟨hopens, -⟩⟩ := h.asked hlimit hasked hallowed hb
    · exact hopened
    · exact absurd ((h.opened_iff hlimit).mp ho) hopens

end

/-- A turn that does not ask the model and keeps the cache as it is; it has no answer that is not
kept, and without one it is refused. -/
structure Turn.Silent (t : Turn τ) : Prop where
  unasked : t.outcome.asked = false
  unchanged : t.after.cache = t.before.cache
  answered : ∀ v, t.outcome.answer = .ok v → ∃ k, t.key = .ok k ∧ t.before.kept k = some v
  refused : ∀ k, t.key = .ok k → t.before.kept k = none → t.outcome.answer = .error refused

theorem Turn.silent (hc : t.before.cache.freshness.ttl = .null)
    (hallowed : t.allowed = false) : t.Silent ∧ t.after.breaker = t.before.breaker := by
  rcases t.cases hc with ⟨hasked, hb, he, herror, h⟩ | ⟨-, hallowed', -⟩
  · refine ⟨⟨hasked, he, fun v hv => ?_, fun k hkey hnone => ?_⟩, hb⟩
    · cases hkey : t.key with
      | error f => simp [herror f hkey] at hv
      | ok k =>
        rcases h k hkey with ⟨w, hw, hanswer⟩ | ⟨-, -, hanswer⟩
        · obtain rfl := Except.ok.inj (hanswer.symm.trans hv)
          exact ⟨k, rfl, hw⟩
        · simp [hanswer] at hv
    · rcases h k hkey with ⟨v, hv, -⟩ | ⟨-, -, hanswer⟩
      · rw [hnone] at hv
        cases hv
      · exact hanswer
  · rw [hallowed] at hallowed'
    cases hallowed'

/-! ### Kept answers -/

variable {g : Gateway τ} {k : String} {v : Value}

theorem Turn.kept_after (hc : t.before.cache.freshness.ttl = .null) (hk : t.before.kept k = some v) :
    t.after.kept k = some v := by
  rcases t.cases hc with ⟨-, -, he, -⟩ | ⟨-, -, -, k', -, hnone, ⟨f, -, -, he⟩ | ⟨s, -, -, he⟩⟩
  · rw [kept, he]
    exact hk
  · rw [kept, he]
    exact hk
  · -- an answer is only entered under a key that has none
    have hne : k' ≠ k := by
      rintro rfl
      rw [hnone] at hk
      cases hk
    rw [kept, he, Cache.set, Value.under?_enter, if_neg hne]
    exact hk

theorem Turn.answered (hc : t.before.cache.freshness.ttl = .null) (hk : t.before.kept k = some v)
    (hkey : t.key = .ok k) : t.outcome = ⟨.ok v, false⟩ := by
  rcases t.cases hc with ⟨hasked, -, -, -, h⟩ | ⟨-, -, -, k', hkey', hnone, -⟩
  · rcases h k hkey with ⟨w, hw, hanswer⟩ | ⟨hnone, -⟩
    · obtain rfl := Option.some.inj (hk.symm.trans hw)
      cases ho : t.outcome
      simp_all
    · rw [hnone] at hk
      cases hk
  · obtain rfl := Except.ok.inj (hkey.symm.trans hkey')
    rw [hnone] at hk
    cases hk

/-- What is kept answers every later question under its key. -/
theorem answered_of_kept {calls : List (Call τ)} (hc : g.cache.freshness.ttl = .null)
    (hk : g.kept k = some v) : ∀ u ∈ turns g calls, u.key = .ok k → u.outcome = ⟨.ok v, false⟩ := by
  induction calls generalizing g with
  | nil => simp [turns]
  | cons c calls ih =>
    intro u hu hkey
    rcases mem_cons.mp hu with rfl | hu
    · exact Turn.answered hc hk hkey
    · exact ih (Turn.lasting_after hc) (Turn.kept_after hc hk) u hu hkey

/-- What the model said is kept. -/
theorem Turn.kept_of_asked (hc : t.before.cache.freshness.ttl = .null) (hkey : t.key = .ok k)
    (ho : t.outcome = ⟨.ok v, true⟩) : t.after.kept k = some v := by
  rcases t.cases hc with ⟨hasked, -⟩ | ⟨-, -, -, k', hkey', -, hreply⟩
  · simp [ho] at hasked
  · obtain rfl := Except.ok.inj (hkey.symm.trans hkey')
    rcases hreply with ⟨f, -, hanswer, -⟩ | ⟨s, -, hanswer, he⟩
    · simp [ho] at hanswer
    · rw [ho] at hanswer
      obtain rfl := Except.ok.inj hanswer
      rw [kept, he, Cache.set, Value.under?_enter, if_pos rfl]
      rfl

/-! ### Along the turns -/

variable {calls : List (Call τ)} {later : List (Turn τ)}

/-- The turns after a turn start with the gateway that it leaves. -/
theorem turns_split (h : turns g calls = past ++ t :: later) :
    ∃ front rest, calls = front ++ t.call :: rest ∧ later = turns t.after rest := by
  induction past generalizing g calls with
  | nil =>
    cases calls with
    | nil => simp [turns] at h
    | cons c rest =>
      obtain ⟨rfl, rfl⟩ := cons.inj h
      exact ⟨[], rest, rfl, rfl⟩
  | cons p past ih =>
    cases calls with
    | nil => simp [turns] at h
    | cons c calls =>
      obtain ⟨-, h⟩ := cons.inj h
      obtain ⟨front, rest, rfl, hlater⟩ := ih h
      exact ⟨c :: front, rest, rfl, hlater⟩

theorem Ready.turn {log : List (Turn τ)} (hlimit : 0 < limit) (hg : Ready pause limit log g)
    (h : turns g calls = past ++ t :: later) :
    Ready pause limit (past.reverse ++ log) t.before := by
  induction past generalizing g calls log with
  | nil =>
    cases calls with
    | nil => simp [turns] at h
    | cons c rest =>
      obtain ⟨rfl, -⟩ := cons.inj h
      exact hg
  | cons p past ih =>
    cases calls with
    | nil => simp [turns] at h
    | cons c calls =>
      obtain ⟨rfl, hrest⟩ := cons.inj h
      simpa using ih (Ready.after (t := ⟨c, g⟩) hg hlimit) hrest

end turns

/-! ## The pause -/

section pause

variable [Sub τ] [LE τ] [DecidableLE τ]
variable {pause opened : τ} {limit : Nat} {g : Gateway τ} {past later : List (Turn τ)} {t u : Turn τ}

/-- By the clock, the pause after an opening is not over yet. -/
def Turn.Early (pause opened : τ) (u : Turn τ) : Prop := ¬ pause ≤ u.call.now.steady - opened

theorem Turn.Early.refused (h : u.Early pause opened) (hp : u.before.breaker.phase = .opened)
    (hat : u.before.breaker.openedAt = some opened) (hpause : u.before.breaker.recovery = pause) :
    u.allowed = false := by
  rw [Turn.allowed, allow_opened hp hat, hpause, if_neg h]

/-- As long as the pause is not over, the breaker stays as it is. -/
theorem blocked {calls : List (Call τ)} (hc : g.cache.freshness.ttl = .null)
    (hp : g.breaker.phase = .opened) (hat : g.breaker.openedAt = some opened) (hpause : g.breaker.recovery = pause)
    (h : turns g calls = past ++ u :: later) (hearly : ∀ w ∈ past ++ [u], w.Early pause opened) : u.Silent := by
  induction past generalizing g calls with
  | nil =>
    cases calls with
    | nil => simp [turns] at h
    | cons c calls =>
      obtain ⟨rfl, -⟩ := cons.inj h
      exact (Turn.silent hc ((hearly _ mem_cons_self).refused hp hat hpause)).1
  | cons w past ih =>
    cases calls with
    | nil => simp [turns] at h
    | cons c calls =>
      obtain ⟨rfl, hrest⟩ := cons.inj h
      obtain ⟨-, hb⟩ := Turn.silent (t := ⟨c, g⟩) hc ((hearly _ mem_cons_self).refused hp hat hpause)
      exact ih (Turn.lasting_after hc) (hb ▸ hp) (hb ▸ hat) (hb ▸ hpause) hrest
        fun w hw => hearly w (mem_cons_of_mem _ hw)

/-- Between two questions the breaker admits a request, unless its pause is not over. -/
theorem Ready.allow (h : Ready pause limit past g) (now : τ) :
    (g.breaker.allow now).1 = true ∨ ∃ u ∈ past, u.opened ∧ ¬ pause ≤ now - u.call.done.steady := by
  cases hp : g.breaker.phase with
  | closed => exact .inl (by rw [allow_closed hp])
  | halfOpen => exact .inl (by rw [allow_halfOpen hp, h.idle]; rfl)
  | opened =>
    obtain ⟨u, hu, hopened, hat⟩ := h.dated hp
    by_cases hover : pause ≤ now - u.call.done.steady
    · exact .inl (by rw [allow_opened hp hat, h.paused, if_pos hover])
    · exact .inr ⟨u, hu, hopened, hover⟩

/-- What holds of a turn, given the turns before and after it. -/
structure Orderly (pause : τ) (limit : Nat) (past : List (Turn τ)) (t : Turn τ)
    (later : List (Turn τ)) : Prop where
  /-- Once it has opened the breaker, the model is left alone until a turn comes after the pause. -/
  silent : t.opened → ∀ between u rest, later = between ++ u :: rest →
    (∀ w ∈ between ++ [u], w.Early pause t.call.done.steady) → u.Silent
  /-- It opens the breaker if the model fails and was asked as a probe, or failed so often in a row. -/
  opens : t.opened ↔ t.failed ∧
    ((t.during.phase = .closed ∧ streak past.reverse + 1 = limit) ∨ t.during.phase = .halfOpen)
  /-- If the model is not asked, the breaker stays as it is. -/
  still : t.outcome.asked = false → t.after.breaker = t.before.breaker
  /-- What is kept under a key is the answer now and later on, whatever the breaker says. -/
  kept : ∀ k v, t.before.kept k = some v → ∀ u ∈ t :: later, u.key = .ok k → u.outcome = ⟨.ok v, false⟩
  /-- What the model said is the answer later on. -/
  stored : ∀ k v, t.key = .ok k → t.outcome = ⟨.ok v, true⟩ → ∀ u ∈ later, u.key = .ok k → u.outcome = ⟨.ok v, false⟩
  /-- It leaves no probe on its way. -/
  idle : t.after.breaker.inFlight = false
  /-- After it the breaker can be asked, unless some turn has opened it and the pause is not over. -/
  ready : ∀ now, (t.after.breaker.allow now).1 = true
    ∨ ∃ u ∈ past ++ [t], u.opened ∧ ¬ pause ≤ now - u.call.done.steady

variable [Zero τ] [LT τ] [DecidableLT τ]

/-- A gateway that nobody has used yet, with whatever its cache has kept. -/
def fresh (failures successes : Int) (recovery : τ) (backend : Backend) (cache : Cache) : Gateway τ :=
  ⟨backend, .of ⟨.ofInt failures, recovery, .ofInt successes⟩, cache⟩

theorem ready_fresh (failures successes : Int) (recovery : τ) (backend : Backend) {cache : Cache}
    (h : cache.freshness.ttl = .null) : Ready (if 0 < recovery then recovery else 0) (max 1 failures).toNat []
      (fresh failures successes recovery backend cache) where
  lasting := h
  limited := rfl
  paused := rfl
  idle := rfl
  counted := fun _ => ⟨rfl, by simp only [streak]; omega⟩
  dated := fun hp => by simp [fresh, of] at hp

/-- Every question of a run is orderly: whatever is asked, whatever the model says and whatever the clock shows,
with a cache that forgets nothing. -/
theorem orderly_turns (failures successes : Int) (recovery : τ) (backend : Backend) (cache : Cache)
    (hcache : cache.freshness.ttl = .null) (calls : List (Call τ))
    (past : List (Turn τ)) (t : Turn τ) (later : List (Turn τ))
    (h : turns (fresh failures successes recovery backend cache) calls = past ++ t :: later) :
    Orderly (if 0 < recovery then recovery else 0) (max 1 failures).toNat past t later := by
  have hlimit : 0 < (max 1 failures).toNat := by omega
  have hready := (ready_fresh failures successes recovery backend hcache).turn hlimit h
  rw [List.append_nil] at hready
  have hafter := hready.after hlimit
  obtain ⟨front, rest, rfl, rfl⟩ := turns_split h
  refine {
    silent := fun ho between u rest hlater hearly => ?_
    opens := hready.opened_iff hlimit
    still := Turn.still hready.lasting
    kept := fun k v hk => by
      change ∀ u ∈ turns t.before (t.call :: rest), _
      exact answered_of_kept hready.lasting hk
    stored := fun k v hkey ho =>
      answered_of_kept hafter.lasting (Turn.kept_of_asked hready.lasting hkey ho)
    idle := hafter.idle
    ready := fun now => ?_ }
  · obtain ⟨hp, hat⟩ := hready.openedAt hlimit ho
    exact blocked hafter.lasting hp hat hafter.paused hlater hearly
  · simpa [or_comm] using hafter.allow now

end pause

/-! ## An outage -/

/-- Questions of texts have a key. -/
theorem exists_key {g : Gateway τ} (hg : g.backend = {}) (system user : String) :
    ∃ k, g.key ⟨.text system, .text user⟩ = .ok k := by
  let fields : Fields :=
    [("system_prompt", .text system), ("user_prompt", .text user), ("provider", .null), ("model", .null)]
  have hsorted : sortKeys (.obj fields) = .ok (.obj (sortFields fields)) := rfl
  have hwritable : Json.Writable (.obj (sortFields fields)) := by
    refine writable_obj fun f hf => ?_
    rw [sortFields, mem_mergeSort] at hf
    simp only [fields, mem_cons, not_mem_nil, or_false] at hf
    rcases hf with rfl | rfl | rfl | rfl
    · exact writable_text system
    · exact writable_text user
    · exact writable_null
    · exact writable_null
  obtain ⟨s, hrender⟩ := hwritable.render {}
  refine ⟨Digest.sha256 s, ?_⟩
  rw [key, hg, cacheKey, renderSorted, hsorted]
  simp only [Except.mapError, bind, Except.bind, hrender]
  rfl

/-- The model fails, and a second question comes before the pause is over. -/
def outage : List (Call Number) :=
  [⟨{}, ⟨.text "s", .text "first"⟩, ⟨.null, .real 0.5⟩, ⟨.null, .real 1.5⟩, .error (.failed none)⟩,
    ⟨{}, ⟨.text "s", .text "second"⟩, ⟨.null, .real 10.25⟩, ⟨.null, .real 10.5⟩, .ok "late"⟩]

theorem silent_in_outage : ∃ t u, turns (fresh 1 1 (.real 10) {} {}) outage = [t, u] ∧ t.opened ∧
      u.Early (.real 10) t.call.done.steady ∧ u.Silent := by
  obtain ⟨t, ht⟩ : ∃ t : Turn Number, t = ⟨outage[0], fresh 1 1 (.real 10) {} {}⟩ := ⟨_, rfl⟩
  obtain ⟨k, hkey⟩ : ∃ k, t.door.key t.call.prompt = .ok k := by
    subst ht
    exact exists_key rfl "s" "first"
  have hopened : t.opened := by
    simp only [Turn.opened, Turn.outcome, Turn.after, Turn.result, analyze, hkey]
    subst ht
    rfl
  have horderly := orderly_turns 1 1 (.real 10) {} {} rfl outage [] t
    (turns t.after (outage.drop 1)) (by rw [ht]; rfl)
  have hpause : (if 0 < Number.real 10 then Number.real 10 else 0) = .real 10 := if_pos (by decide +kernel)
  have hearly : Turn.Early (.real 10) t.call.done.steady ⟨outage[1], t.after⟩ := by
    rw [Turn.Early, ht]
    decide +kernel
  refine ⟨t, ⟨outage[1], t.after⟩, by rw [ht]; rfl, hopened, hearly, ?_⟩
  exact horderly.silent hopened [] _ [] rfl (by simpa [hpause] using hearly)

end Gateway

end SecScan.Llm
