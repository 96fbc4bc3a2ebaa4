import Mathlib.Data.Nat.ModEq
import Mathlib.Logic.Function.Iterate
import SecScan.Llm.Client
import SecScan.Proofs.Keyed

/-!
Keys in turn. A client uses the key at its index, and whatever comes of a conversation it is left so, with the provider
that it was made for (`Client.Turned`). Within a call the keys are tried from the one in use on, the first one after the
last, each at most once, for as long as they are refused with a status that another key may help with (`Refused`); what
the last try has given is the answer, unless the second provider has a better one (`chats_in_turn`).
-/

namespace SecScan.Llm

open List

namespace Client

/-- A client as it was made, but for the key in use, which stands at the index. -/
def Turned (own c : Client) : Prop := ∃ i k, own.keys[i]? = some k ∧ c = { own with index := i, key := k }

variable {own c : Client}

theorem Turned.nextKey (h : own.Turned c) : own.Turned c.nextKey := by
  obtain ⟨i, k, hk, rfl⟩ := h
  have hpos : 0 < own.keys.length := Nat.zero_lt_of_lt (List.getElem?_eq_some_iff.mp hk).1
  have hlt : (i + 1) % own.keys.length < own.keys.length := Nat.mod_lt _ hpos
  refine ⟨(i + 1) % own.keys.length, _, List.getElem?_eq_getElem hlt, ?_⟩
  simp [Client.nextKey, getD_eq_getElem?_getD, hlt]

theorem Turned.truthy (h : own.Turned c) (hkeys : ∀ k ∈ own.keys, k.truthy = true) : c.key.truthy = true := by
  obtain ⟨i, k, hk, rfl⟩ := h
  exact hkeys k (mem_of_getElem? hk)

theorem truthy_keysOf {env : Environment} {provider : String} : ∀ k ∈ keysOf env provider, k.truthy = true := by
  intro k hk
  obtain ⟨names, -, hnames⟩ := mem_filterMap.mp hk
  obtain ⟨text, htext, rfl⟩ := Option.map_eq_some_iff.mp hnames
  obtain ⟨name, -, hname⟩ := exists_of_findSome?_eq_some htext
  simpa [Value.truthy] using (Option.filter_eq_some_iff.mp hname).2

/-- A client begins with its first key, and all its keys can be used. -/
theorem turned_of {env : Environment} {o : ClientOptions} (h : of env o = .ok c) (hkeys : c.keys ≠ []) :
    c.Turned c ∧ ∀ k ∈ c.keys, k.truthy = true := by
  obtain ⟨provider, -, h⟩ := bind_eq_ok.mp h
  obtain rfl := Except.ok.inj h
  constructor
  · obtain ⟨k, keys, hcons⟩ := exists_cons_of_ne_nil hkeys
    exact ⟨0, k, by rw [hcons]; rfl, by simp only at hcons; simp [hcons]⟩
  · intro k hk
    simp only at hk
    split at hk
    · next ho => exact mem_singleton.mp hk ▸ ho
    · exact truthy_keysOf k hk

end Client

namespace Session

variable {s : Session} {own : Client} {messages : Value}

theorem attempt_client (s : Session) (key messages : Value) : (s.attempt key messages).2.client = s.client := by
  have hexchange : ∀ r content field prompt completion,
      (s.exchange r content field prompt completion).2.client = s.client := by
    intro r content field prompt completion
    rw [exchange]
    obtain ⟨reply, net⟩ := s.network.send r
    cases reply with
    | error f => rfl
    | ok reply =>
      cases reply with
      | refused status body => rfl
      | unreachable reason => rfl
      | body text =>
        dsimp only
        cases parsedBody content text <;> rfl
  unfold attempt
  simp only
  split
  · split
    · rfl
    · exact hexchange ..
  · split
    · split
      · rfl
      · exact hexchange ..
    · rfl

/-! ## The tries of a call -/

/-- An error with the status of a key that is not accepted, or whose quota is used up. -/
def Refused (r : Value) : Prop :=
  isError r = true ∧ ∃ status, r.get? "status" = some status ∧ ∃ n ∈ [401, 429], status.same (.int n) = true

theorem wantsNextKey_iff {r : Value} : wantsNextKey r = true ↔ Refused r := by
  simp only [wantsNextKey, Refused, Bool.and_eq_true, any_cons, any_nil, Bool.or_false, Bool.or_eq_true, mem_cons,
    not_mem_nil, or_false, exists_eq_or_imp, exists_eq_left, Value.getD]
  cases r.get? "status" with
  | none => simp [Value.same]
  | some status => simp [or_comm]

/-- The session after a try, with the next key. -/
def turn (messages : Value) (s : Session) : Session :=
  let s := (s.attempt s.client.key messages).2
  { s with client := s.client.nextKey }

section

variable (s messages) (n : Nat)

/-- The session before a try, if all tries before it were followed by another one. -/
def beforeTry : Session := (turn messages)^[n] s

def tried : Try Value × Session :=
  (s.beforeTry messages n).attempt (s.beforeTry messages n).client.key messages

theorem beforeTry_succ : s.beforeTry messages (n + 1) = (s.beforeTry messages n).turn messages :=
  Function.iterate_succ_apply' ..

end

theorem turned_beforeTry (h : own.Turned s.client) (messages : Value) (n : Nat) :
    own.Turned (s.beforeTry messages n).client
      ∧ (s.beforeTry messages n).client.index = (s.client.index + n) % own.keys.length := by
  induction n with
  | zero =>
    refine ⟨h, ?_⟩
    obtain ⟨i, k, hk, hc⟩ := h
    change s.client.index = s.client.index % _
    rw [hc]
    exact (Nat.mod_eq_of_lt (List.getElem?_eq_some_iff.mp hk).1).symm
  | succ n ih =>
    obtain ⟨hturned, hindex⟩ := ih
    have hclient : (s.beforeTry messages (n + 1)).client = (s.beforeTry messages n).client.nextKey := by
      rw [beforeTry_succ, turn, attempt_client]
    have hkeys : (s.beforeTry messages n).client.keys = own.keys := by
      obtain ⟨i, k, -, hc⟩ := hturned
      rw [hc]
    rw [hclient]
    refine ⟨hturned.nextKey, ?_⟩
    rw [Client.nextKey, hkeys, hindex, Nat.mod_add_mod, Nat.add_assoc]

theorem tryKeys_succ (hkey : s.client.key.truthy = true) (result : Value) (n : Nat) :
    s.tryKeys messages result (n + 1) = match (s.tried messages 0).1 with
      | .ok r => if wantsNextKey r = true ∧ n ≠ 0 then (s.turn messages).tryKeys messages r n else s.tried messages 0
      | .error _ => s.tried messages 0 := by
  have htried : s.attempt s.client.key messages = s.tried messages 0 := rfl
  rw [tryKeys, turn, htried]
  simp only [hkey, Bool.not_true, Bool.false_eq_true, ↓reduceIte]
  obtain ⟨r, t⟩ := s.tried messages 0
  cases r with
  | error f => rfl
  | ok r => cases hwants : wantsNextKey r <;> cases n <;> simp [hwants]

/-- The tries go on for as long as another key may help and there is another one. -/
theorem tryKeys_eq_tried (hkeys : ∀ k ∈ own.keys, k.truthy = true) (h : own.Turned s.client) (result : Value)
    (limit : Nat) : ∃ n ≤ limit, s.tryKeys messages result (limit + 1) = s.tried messages n
      ∧ (∀ j < n, ∃ r, (s.tried messages j).1 = .ok r ∧ wantsNextKey r = true)
      ∧ (n < limit → ∀ r, (s.tried messages n).1 = .ok r → wantsNextKey r = false) := by
  induction limit generalizing s result with
  | zero =>
    refine ⟨0, Nat.le_refl 0, ?_, by simp, by simp⟩
    rw [tryKeys_succ (h.truthy hkeys)]
    split <;> simp
  | succ limit ih =>
    rw [tryKeys_succ (h.truthy hkeys)]
    cases htried : (s.tried messages 0).1 with
    | error f => exact ⟨0, Nat.zero_le _, rfl, by simp, by simp [htried]⟩
    | ok r =>
      cases hwants : wantsNextKey r with
      | false => exact ⟨0, Nat.zero_le _, by simp [hwants], by simp, by simp [htried, hwants]⟩
      | true =>
        obtain ⟨n, hn, heq, hbefore, hlast⟩ := ih (turned_beforeTry h messages 1).1 r
        refine ⟨n + 1, Nat.succ_le_succ hn, (if_pos ⟨hwants, Nat.succ_ne_zero limit⟩).trans heq, ?_,
          fun hlt => hlast (Nat.lt_of_succ_lt_succ hlt)⟩
        intro j hj
        cases j with
        | zero => exact ⟨r, htried, hwants⟩
        | succ j => exact hbefore j (Nat.lt_of_succ_lt_succ hj)

/-! ## Calls -/

theorem tryFallback_client (s : Session) (messages : Value) : (s.tryFallback messages).2.client = s.client := by
  rw [tryFallback]
  split
  · rfl
  · exact congrArg (·.restore s.client) (attempt_client ..)

/-- What is made of the result of the first provider. -/
theorem chat_of_tryPrimary {p : Try Value × Session} (h : s.tryPrimary messages = p) :
    (s.chat messages).2.client = p.2.client ∧ (∀ f, p.1 = .error f → (s.chat messages).1 = .error f)
      ∧ ∀ result, p.1 = .ok result → (isError result = false ∨ p.2.client.fallsBack.truthy = false
        ∨ ∃ v, (p.2.tryFallback messages).1 = .ok v ∧ v.all isError = true) → (s.chat messages).1 = .ok result := by
  obtain ⟨r, t⟩ := p
  rw [chat, h]
  cases r with
  | error f => simp
  | ok result =>
    cases hfalls : isError result && t.client.fallsBack.truthy with
    | false =>
      simp only [hfalls]
      exact ⟨rfl, by simp, fun _ hr _ => hr⟩
    | true =>
      have hclient := t.tryFallback_client messages
      simp only [Bool.and_eq_true] at hfalls
      simp only [hfalls]
      cases hback : t.tryFallback messages with
      | mk v u =>
        rw [hback] at hclient
        cases v with
        | error f => simpa [hfalls] using hclient
        | ok v => cases v <;> simpa +contextual [hfalls] using hclient

section

variable (hkeys : ∀ k ∈ own.keys, k.truthy = true) (h : own.Turned s.client) (messages : Value)
include hkeys h

/-- The first provider is tried with its keys in turn. -/
theorem tryPrimary_eq_tried :
    ∃ n < if own.rotates then own.keys.length else 1, s.tryPrimary messages = s.tried messages n
      ∧ (∀ j < n, ∃ r, (s.tried messages j).1 = .ok r ∧ wantsNextKey r = true)
      ∧ (n + 1 < (if own.rotates then own.keys.length else 1) →
        ∀ r, (s.tried messages n).1 = .ok r → wantsNextKey r = false) := by
  have hown : s.client.keys = own.keys ∧ s.client.rotates = own.rotates ∧ own.keys ≠ [] := by
    obtain ⟨i, k, hk, hc⟩ := h
    rw [hc]
    exact ⟨rfl, rfl, ne_nil_of_mem (mem_of_getElem? hk)⟩
  obtain ⟨limit, hlimit⟩ : ∃ limit, (if own.rotates then own.keys.length else 1) = limit + 1 := by
    obtain ⟨k, keys, hcons⟩ := exists_cons_of_ne_nil hown.2.2
    cases own.rotates
    · exact ⟨0, rfl⟩
    · exact ⟨keys.length, by rw [hcons]; rfl⟩
  obtain ⟨n, hn, heq, hbefore, hlast⟩ := tryKeys_eq_tried hkeys h (.obj [("error", .text "uninitialized")]) limit
  rw [tryPrimary, hown.1, hown.2.1, hlimit]
  exact ⟨n, Nat.lt_succ_of_le hn, by simpa [hown.2.2] using heq, hbefore, fun hlt => hlast (Nat.lt_of_succ_lt_succ hlt)⟩

theorem turned_chat : own.Turned (s.chat messages).2.client := by
  obtain ⟨n, -, heq, -⟩ := tryPrimary_eq_tried hkeys h messages
  rw [(chat_of_tryPrimary heq).1, tried, attempt_client]
  exact (turned_beforeTry h messages n).1

end

def chats (s : Session) (calls : List Value) : Session := calls.foldl (fun s messages => (s.chat messages).2) s

theorem turned_chats (hkeys : ∀ k ∈ own.keys, k.truthy = true) (h : own.Turned s.client) (calls : List Value) :
    own.Turned (s.chats calls).client := by
  induction calls generalizing s with
  | nil => exact h
  | cons messages calls ih => exact ih (turned_chat hkeys h messages)

/-- Places in turn that are fewer than the keys are different ones. -/
theorem nodup_places (i : Nat) {n len : Nat} (h : n < len) : ((range (n + 1)).map fun j => (i + j) % len).Nodup := by
  refine List.Nodup.map_on ?_ nodup_range
  intro j hj k hk heq
  have hmod : j ≡ k [MOD len] := Nat.ModEq.add_left_cancel' i heq
  have hj := mem_range.mp hj
  have hk := mem_range.mp hk
  exact hmod.eq_of_lt_of_lt (by omega) (by omega)

/-- Before and after every call a client is as it was made, but for its turn. A call tries the keys from the one in use
on, each once at most, exactly for as long as they are refused; and what the last try has given is the answer, unless
there is an answer of the second provider or no answer at all. -/
theorem chats_in_turn {env : Environment} {o : ClientOptions} {c : Client} (hof : Client.of env o = .ok c)
    (hkeys : c.keys ≠ []) (network : Network) (metrics : Telemetry.Metrics) (earlier : List Value) (messages : Value) :
    let s := chats ⟨c, network, metrics⟩ earlier
    let limit := if c.rotates then c.keys.length else 1
    c.Turned s.client ∧ c.Turned (s.chat messages).2.client
    ∧ ∃ n < limit, s.tryPrimary messages = s.tried messages n
      ∧ (s.chat messages).2.client = (s.beforeTry messages n).client
      ∧ (∀ j ≤ n, c.Turned (s.beforeTry messages j).client
        ∧ (s.beforeTry messages j).client.index = (s.client.index + j) % c.keys.length)
      ∧ ((List.range (n + 1)).map fun j => (s.client.index + j) % c.keys.length).Nodup
      ∧ (∀ j < n, ∃ r, (s.tried messages j).1 = .ok r ∧ Refused r)
      ∧ (n + 1 < limit → ∀ r, (s.tried messages n).1 = .ok r → ¬ Refused r)
      ∧ (∀ f, (s.tried messages n).1 = .error f → (s.chat messages).1 = .error f)
      ∧ ∀ r, (s.tried messages n).1 = .ok r → (isError r = false ∨ c.fallsBack.truthy = false
        ∨ ∃ v, ((s.tried messages n).2.tryFallback messages).1 = .ok v ∧ v.all isError = true) →
        (s.chat messages).1 = .ok r := by
  intro s limit
  obtain ⟨hstart, htruthy⟩ := Client.turned_of hof hkeys
  have hs : c.Turned s.client := turned_chats htruthy hstart earlier
  obtain ⟨n, hn, heq, hbefore, hlast⟩ := tryPrimary_eq_tried htruthy hs messages
  have hlen : n < c.keys.length := by
    have hpos : 0 < c.keys.length := List.length_pos_iff.mpr hkeys
    split at hn <;> omega
  have hclient : (s.tried messages n).2.client.fallsBack = c.fallsBack := by
    obtain ⟨i, k, -, hc⟩ := (turned_beforeTry hs messages n).1
    rw [tried, attempt_client, hc]
  obtain ⟨hafter, herror, hok⟩ := chat_of_tryPrimary heq
  rw [← hclient]
  simp only [← wantsNextKey_iff, Bool.not_eq_true]
  exact ⟨hs, turned_chat htruthy hs messages, n, hn, heq, hafter.trans (attempt_client ..),
    fun j _ => turned_beforeTry hs messages j, nodup_places _ hlen, hbefore, hlast, herror, hok⟩

/-! ## Two keys that are refused -/

def twoKeys : Environment :=
  [("OPENAI_API_KEY", "a"), ("OPENAI_API_KEY_2", "b"), ("LLM_FALLBACK_PROVIDER", "gemini"), ("GEMINI_API_KEY", "g")]

/-- The quota of the first key is used up, the second is not accepted, and the second provider does not answer. -/
def refusals : Session where
  client :=
    { endpoint := ⟨"openai", .text "gpt-4o-mini", .text "https://api.openai.com/v1"⟩
      keys := [.text "a", .text "b"]
      fallbackProvider := "gemini"
      fallbackKeys := [.text "g"]
      fallsBack := .bool true }
  network := ⟨[.refused (.int 429) "", .refused (.int 401) ""], []⟩

/-- Both keys are tried, and the second one stays in use. -/
theorem twoKeys_in_turn : Client.of twoKeys {} = .ok refusals.client
    ∧ refusals.tryPrimary (.list []) = refusals.tried (.list []) 1
    ∧ (refusals.chat (.list [])).2.client.key = .text "b" := by
  have hof : Client.of twoKeys {} = .ok refusals.client := rfl
  have hfirst : (refusals.tried (.list []) 0).1
      = .ok (.obj [("error", .text "llm http error"), ("status", .int 429), ("body", .text "")]) := rfl
  obtain ⟨-, -, n, hn, heq, hafter, -, -, -, hlast, -⟩ :=
    chats_in_turn hof (by decide) refusals.network {} [] (.list [])
  obtain rfl : n = 1 := by
    have hne : n ≠ 0 := by
      rintro rfl
      exact hlast (by decide) _ hfirst ⟨rfl, .int 429, rfl, 429, by decide, by simp [Value.same]⟩
    have hlt : n < 2 := hn
    omega
  exact ⟨hof, heq, congrArg Client.key hafter⟩

end Session

end SecScan.Llm
