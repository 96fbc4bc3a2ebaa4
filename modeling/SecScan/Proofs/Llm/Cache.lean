import SecScan.Llm.Cache
import SecScan.Proofs.Json.Plain

/-!
Answers that are kept between runs. The store keeps its answers in memory and writes them to a file
whenever they change, also when a look for an answer finds one that is too old. A store that is opened
anew on the file holds the same answers (`Cache.load_holding`), so it cannot be told apart from one
that was never closed.
-/

namespace SecScan

open List Json Value

/-! ## Tables under texts -/

namespace Value

variable {α β : Type}

theorem same_text {v : Value} {k : String} : v.same (.text k) = true ↔ v = .text k := by
  constructor
  · intro h
    cases v <;> simp_all [same, sameWhole]
  · rintro rfl
    simp [same]

theorem under?_enter (k w : String) (a : α) (l : List (Value × α)) :
    under? (.text w) (enter (.text k) a l) = if k = w then some a else under? (.text w) l := by
  induction l with
  | nil => simp [enter, under?, same]
  | cons e l ih =>
    obtain ⟨x, b⟩ := e
    by_cases hx : x = .text k
    · subst hx
      by_cases hk : k = w <;> simp [enter, under?, same, hk]
    · have hne : x.same (.text k) = false := by simpa using mt same_text.mp hx
      rw [enter, if_neg (by simp [hne]), under?, under?, ih]
      by_cases hk : k = w
      · subst hk
        simp [hne]
      · simp [hk]

/-- A table whose keys are all texts. -/
def underTexts (f : β → α) (rows : List (String × β)) : List (Value × α) := rows.map fun e => (.text e.1, f e.2)

variable (f : β → α) (rows : List (String × β)) (k : String)

theorem under?_underTexts : under? (.text k) (underTexts f rows) = (rows.lookup k).map f := by
  induction rows with
  | nil => rfl
  | cons e rows ih =>
    obtain ⟨k', b⟩ := e
    rw [underTexts] at ih ⊢
    rw [map_cons, under?, ih, same, lookup_cons, Bool.beq_comm]
    cases k == k' <;> rfl

theorem enter_underTexts (b : β) : enter (.text k) (f b) (underTexts f rows) = underTexts f (putField k b rows) := by
  induction rows with
  | nil => rfl
  | cons e rows ih =>
    obtain ⟨k', b'⟩ := e
    rw [underTexts] at ih ⊢
    rw [map_cons, enter, ih, same, putField]
    cases k' == k <;> rfl

theorem remove_underTexts : remove (.text k) (underTexts f rows) = underTexts f (rows.filter (·.1 != k)) := by
  simp only [remove, underTexts, filter_map, Function.comp_def, same, bne]

end Value

/-! ## A store and its file -/

namespace Llm

variable (ttl : Option Number)

/-- Answers last for some time, or for ever. -/
def Freshness.lasting : Freshness := ⟨ttl.elim .null Number.value⟩

def stillGood (now entered : Float) : Bool := ttl.all (Number.real (now - entered)).le

theorem Freshness.isValid_lasting (now entered : Float) :
    (lasting ttl).isValid (.float now) (.float entered) = .ok (stillGood ttl now entered) := by
  rcases ttl with - | n | x <;> rfl

/-- The answers in memory, and the file they are kept in. -/
structure CacheStore where
  cache : Cache
  file : String

namespace CacheStore

/-- What is done with a store; to restart is to open a new one on the same file with the same policy. -/
inductive Act where
  | set (key response : String)
  | get (key : String)
  | clear
  | restart
  deriving DecidableEq

def fresh : CacheStore := ⟨{ freshness := .lasting ttl }, "\x7b\x7d"⟩

def saved (c : Cache) : Try CacheStore := return ⟨c, ← c.text⟩

def answer (s : CacheStore) (now : Float) (key : String) : Try (Option Value) :=
  (s.cache.get (.float now) (.text key)).1

/-- The file is written when an answer was entered, all were dropped, or one was found too old. -/
def act (s : CacheStore) (now : Float) : Act → Try CacheStore
  | .set key response => saved (s.cache.set (.float now) (.text key) (.text response))
  | .get key => do
    let (found, c) := s.cache.get (.float now) (.text key)
    let _ ← found
    if c.entries.length < s.cache.entries.length then saved c else return { s with cache := c }
  | .clear => saved s.cache.clear
  | .restart => return { s with cache := ← Cache.load { freshness := s.cache.freshness } s.file }

def run (s : CacheStore) (log : List (Float × Act)) : Try CacheStore := log.foldlM (fun s e => s.act e.1 e.2) s

end CacheStore

/-! ## Reading back -/

def CacheEntry.entered (e : String × Float) : CacheEntry := ⟨.text e.1, .float e.2⟩

namespace Cache

def holding (rows : List (String × String × Float)) : Cache :=
  ⟨.lasting ttl, Value.underTexts .entered rows⟩

variable {ttl} {rows : List (String × String × Float)}

theorem set_holding (now : Float) (key response : String) :
    (holding ttl rows).set (.float now) (.text key) (.text response) =
      holding ttl (putField key (response, now) rows) := by
  rw [set, holding, holding, ← enter_underTexts]
  rfl

theorem get_holding (ttl : Option Number) (rows : List (String × String × Float)) (now : Float) (key : String) :
    (holding ttl rows).get (.float now) (.text key) = match rows.lookup key with
      | none => (.ok none, holding ttl rows)
      | some e =>
        if stillGood ttl now e.2 then (.ok (some (.text e.1)), holding ttl rows)
        else (.ok none, holding ttl (rows.filter (·.1 != key))) := by
  have hunder : under? (.text key) (holding ttl rows).entries =
      (rows.lookup key).map .entered := under?_underTexts _ _ _
  have hfixed : (Value.text key).requireFixed = .ok () := rfl
  rw [get, hfixed]
  simp only [hunder]
  cases hlook : rows.lookup key with
  | none => rfl
  | some e =>
    have hvalid : (holding ttl rows).freshness.isValid (.float now) (CacheEntry.entered e).updatedAt =
        .ok (stillGood ttl now e.2) := Freshness.isValid_lasting ttl now e.2
    simp only [Option.map_some, hvalid]
    cases stillGood ttl now e.2 with
    | true => rfl
    | false =>
      simp only [holding, remove_underTexts]
      rfl

variable (e : String × Float)

def written : Value := .obj [("response", .text e.1), ("updated_at", .float e.2)]

theorem value_holding : (holding ttl rows).value = .obj (rows.map fun e => (e.1, written e.2)) := by
  simp only [value, holding, Value.underTexts, obj, map_map, written]
  rfl

theorem plain_written : Json.Plain 1 (written e) := by
  refine .obj (by simp) ?_
  intro f hf
  simp only [mem_cons, not_mem_nil, or_false] at hf
  rcases hf with rfl | rfl
  · exact ⟨rfl, Nat.zero_le _⟩
  · exact ⟨rfl, Nat.zero_le _⟩

theorem writable_written : Json.Writable (written e) := by
  refine writable_obj ?_
  intro f hf
  simp only [mem_cons, not_mem_nil, or_false] at hf
  rcases hf with rfl | rfl
  · exact writable_text _
  · exact writable_float _

theorem read_value : (holding ttl rows).read (holding ttl rows).value = .ok (holding ttl rows) := by
  have hentry : ∀ e : String × Float, entryOf (written e) = some (.entered e) := fun _ => rfl
  have hrows : rows.mapM (fun e => some (Value.text e.1, CacheEntry.entered e.2)) =
      some (Value.underTexts .entered rows) := mapM_pure ..
  rw [value_holding, obj, read, map_map, mapM_map]
  simp only [Function.comp_def, hentry, Option.map_some, hrows, Option.getD_some, holding]

/-- What a store has written is read as what it held. -/
theorem load_holding (ttl : Option Number) (hkeys : (rows.map (·.1)).Nodup) :
    ∃ s, (holding ttl rows).text = .ok s ∧ (holding ttl rows).load s = .ok (holding ttl rows) := by
  have hrow : ∀ f ∈ rows.map (fun e => (e.1, written e.2)), ∃ e, f.2 = written e := by
    intro f hf
    obtain ⟨e, -, rfl⟩ := mem_map.mp hf
    exact ⟨e.2, rfl⟩
  have hplain : Json.Plain 2 (holding ttl rows).value := by
    rw [value_holding]
    refine .obj (by simpa [map_map, Function.comp_def] using hkeys) ?_
    intro f hf
    obtain ⟨e, he⟩ := hrow f hf
    exact he ▸ plain_written e
  obtain ⟨s, hs⟩ : ∃ s, write (indented 2) (holding ttl rows).value = .ok s := by
    rw [value_holding]
    refine writable_obj ?_ _ _ _
    intro f hf
    obtain ⟨e, he⟩ := hrow f hf
    exact he ▸ writable_written e
  have hparse : parse s = .ok (holding ttl rows).value := by
    have hdepth := Nat.le_trans hplain.depth_le (by decide : 2 ≤ levelLimit)
    rw [(parse_write (blank_indented 2) hs).1 hdepth, hplain.image_eq]
  have hnonempty : s.isEmpty = false := by
    rw [value_holding, obj] at hs
    obtain ⟨u, hu⟩ := write_map (blank_indented 2) hs
    rw [Bool.eq_false_iff, ne_eq, String.isEmpty_iff]
    rintro rfl
    cases hu
  refine ⟨s, by rw [text, Json.render, hs, Except.mapError], ?_⟩
  rw [load, hnonempty, if_neg Bool.false_ne_true, Json.readIfJson, Json.read, hparse]
  exact read_value

end Cache

/-! ## Restarts -/

namespace CacheStore

variable {ttl} {rows : List (String × String × Float)} {s : CacheStore}

def held (ttl : Option Number) (rows : List (String × String × Float)) (e : Float × Act) :
    List (String × String × Float) :=
  match e.2 with
  | .set key response => putField key (response, e.1) rows
  | .get key =>
    if (rows.lookup key).all (stillGood ttl e.1 ·.2) then rows else rows.filter (·.1 != key)
  | .clear => []
  | .restart => rows

/-- A store that holds some answers, in memory and in its file. -/
structure Holds (ttl : Option Number) (rows : List (String × String × Float)) (s : CacheStore) :
    Prop where
  memory : s.cache = .holding ttl rows
  keys : (rows.map (·.1)).Nodup
  file : s.cache.load s.file = .ok s.cache

theorem holds_saved (hkeys : (rows.map (·.1)).Nodup) : ∃ s, saved (.holding ttl rows) = .ok s ∧ s.Holds ttl rows := by
  obtain ⟨text, htext, hload⟩ := Cache.load_holding ttl hkeys
  exact ⟨⟨.holding ttl rows, text⟩, by rw [saved, htext]; rfl, rfl, hkeys, hload⟩

theorem holds_fresh (ttl : Option Number) : (fresh ttl).Holds ttl [] := by
  refine ⟨rfl, nodup_nil, ?_⟩
  have hwrite : write {} (.map []) = .ok "\x7b\x7d" := by
    rw [write, writeOnto]
    decide
  have hparse := (parse_write blank_plain hwrite).1 (by decide)
  have hnonempty : "\x7b\x7d".isEmpty = false := by decide
  simp only [fresh, Cache.load, hnonempty, Json.readIfJson, Json.read, hparse]
  rfl

theorem act_get {now : Float} {key : String} {found : Option Value} {c : Cache}
    (h : s.cache.get (.float now) (.text key) = (.ok found, c)) :
    s.act now (.get key) =
      if c.entries.length < s.cache.entries.length then saved c else .ok { s with cache := c } := by
  rw [act, h]
  rfl

theorem Holds.act (h : s.Holds ttl rows) (e : Float × Act) :
    ∃ s', s.act e.1 e.2 = .ok s' ∧ s'.Holds ttl (held ttl rows e) := by
  obtain ⟨now, a⟩ := e
  cases a with
  | set key response =>
    rw [CacheStore.act, h.memory, Cache.set_holding]
    exact holds_saved (nodup_putField h.keys)
  | clear =>
    rw [CacheStore.act, h.memory]
    exact @holds_saved ttl [] nodup_nil
  | restart =>
    -- nothing but the policy of the old store is used to read the file
    have hload : Cache.load { freshness := s.cache.freshness } s.file = s.cache.load s.file := rfl
    exact ⟨s, by rw [CacheStore.act, hload, h.file]; rfl, h⟩
  | get key =>
    have hget := Cache.get_holding ttl rows now key
    rw [← h.memory] at hget
    cases hlook : rows.lookup key with
    | none =>
      rw [hlook] at hget
      refine ⟨s, ?_, by simpa [held, hlook] using h⟩
      rw [act_get hget, if_neg (Nat.lt_irrefl _)]
    | some r =>
      rw [hlook] at hget
      cases hgood : stillGood ttl now r.2 with
      | true =>
        simp only [hgood, if_true] at hget
        refine ⟨s, ?_, by simpa [held, hlook, hgood] using h⟩
        rw [act_get hget, if_neg (Nat.lt_irrefl _)]
      | false =>
        -- the entry that was found goes, so there are fewer, and the file is written
        simp only [hgood, Bool.false_eq_true, if_false] at hget
        have hheld : held ttl rows (now, .get key) = rows.filter (·.1 != key) := by simp [held, hlook, hgood]
        have hfewer : (rows.filter (·.1 != key)).length < rows.length :=
          length_filter_lt_length_iff_exists.mpr ⟨_, mem_of_lookup hlook, by simp⟩
        rw [act_get hget, hheld, h.memory, if_pos]
        · exact holds_saved (h.keys.sublist (filter_sublist.map _))
        · simpa [Cache.holding, Value.underTexts] using hfewer

theorem Holds.run (h : s.Holds ttl rows) (log : List (Float × Act)) :
    ∃ s', s.run log = .ok s' ∧ s'.Holds ttl (log.foldl (held ttl) rows) := by
  induction log generalizing s rows with
  | nil => exact ⟨s, rfl, h⟩
  | cons e log ih =>
    obtain ⟨s₁, hact, h₁⟩ := h.act e
    obtain ⟨s', hrun, h'⟩ := ih h₁
    refine ⟨s', ?_, h'⟩
    rw [CacheStore.run, foldlM_cons, hact]
    exact hrun

/-! ### What stands in the log -/

/-- The response that was set last under a key, at time `entered`: since then nothing was cleared,
and no look for it found it too old. -/
def Stands (ttl : Option Number) (log : List (Float × Act)) (key response : String) (entered : Float) : Prop :=
  ∃ before after, log = before ++ (entered, .set key response) :: after ∧
    ∀ e ∈ after, e.2 ≠ .clear ∧ (∀ other, e.2 ≠ .set key other) ∧ (e.2 = .get key → stillGood ttl e.1 entered)

theorem stands_append {log : List (Float × Act)} {e : Float × Act} {key response : String} {entered : Float} :
    Stands ttl (log ++ [e]) key response entered ↔ e = (entered, .set key response) ∨
      (Stands ttl log key response entered ∧ e.2 ≠ .clear ∧ (∀ other, e.2 ≠ .set key other) ∧
        (e.2 = .get key → stillGood ttl e.1 entered)) := by
  constructor
  · rintro ⟨before, after, heq, hafter⟩
    rcases eq_nil_or_concat after with rfl | ⟨after, e', rfl⟩
    · exact .inl (append_inj' heq rfl |>.2 |> singleton_inj.mp)
    · have hsplit : log ++ [e] = (before ++ (entered, .set key response) :: after) ++ [e'] := by simpa using heq
      obtain ⟨rfl, he⟩ := append_inj' hsplit rfl
      obtain rfl := singleton_inj.mp he
      exact .inr ⟨⟨before, after, rfl, fun x hx => hafter x (by simp [hx])⟩, hafter e (by simp)⟩
  · rintro (rfl | ⟨⟨before, after, rfl, hafter⟩, he⟩)
    · exact ⟨log, [], rfl, by simp⟩
    · refine ⟨before, after ++ [e], by simp, ?_⟩
      intro x hx
      rcases mem_append.mp hx with hx | hx
      · exact hafter x hx
      · exact mem_singleton.mp hx ▸ he

theorem lookup_held (ttl : Option Number) (log : List (Float × Act)) (key response : String) (entered : Float) :
    (log.foldl (held ttl) []).lookup key = some (response, entered) ↔ Stands ttl log key response entered := by
  induction log using List.reverseRecOn with
  | nil => simp [Stands]
  | append_singleton log e ih =>
    rw [foldl_append, stands_append, ← ih]
    obtain ⟨now, a⟩ := e
    generalize log.foldl (held ttl) [] = rows
    cases a with
    | set k r =>
      simp only [foldl_cons, foldl_nil, held, lookup_putField]
      by_cases hk : key = k
      · subst hk
        rw [if_pos rfl]
        constructor
        · intro h
          obtain ⟨rfl, rfl⟩ := Prod.mk.inj (Option.some.inj h)
          exact .inl rfl
        · rintro (h | ⟨-, -, h, -⟩)
          · cases h
            rfl
          · exact absurd rfl (h r)
      · simp [hk, Ne.symm hk]
    | clear => simp [held]
    | restart => simp [held]
    | get k =>
      simp only [foldl_cons, foldl_nil, held]
      by_cases hk : key = k
      · subst hk
        cases hlook : rows.lookup key with
        | none => simp [hlook]
        | some r =>
          obtain ⟨r, t⟩ := r
          by_cases hgood : stillGood ttl now t
          · rw [Option.all_some, if_pos hgood, hlook]
            constructor
            · intro h
              obtain ⟨rfl, rfl⟩ := Prod.mk.inj (Option.some.inj h)
              exact .inr ⟨rfl, by simp, by simp, fun _ => hgood⟩
            · rintro (h | ⟨h, -⟩)
              · cases h
              · exact h
          · rw [Option.all_some, if_neg hgood, lookup_filter, if_pos rfl]
            constructor
            · intro h
              cases h
            · rintro (h | ⟨h, -, -, hg⟩)
              · cases h
              · obtain ⟨rfl, rfl⟩ := Prod.mk.inj (Option.some.inj h)
                exact absurd (hg rfl) hgood
      · have hsame : (if (rows.lookup k).all (stillGood ttl now ·.2) then rows
            else rows.filter (·.1 != k)).lookup key = rows.lookup key := by
          split
          · rfl
          · rw [lookup_filter, if_neg hk]
        simp [hsame, Ne.symm hk]

def Act.isUse : Act → Bool
  | .restart => false
  | _ => true

theorem held_uses (ttl : Option Number) (log : List (Float × Act)) :
    (log.filter (·.2.isUse)).foldl (held ttl) [] = log.foldl (held ttl) [] := by
  generalize ([] : List (String × String × Float)) = rows
  induction log generalizing rows with
  | nil => rfl
  | cons e log ih =>
    by_cases he : e.2.isUse
    · rw [filter_cons, if_pos he, foldl_cons, foldl_cons, ih]
    · have hheld : held ttl rows e = rows := by
        obtain ⟨now, a⟩ := e
        cases a <;> simp_all [Act.isUse, held]
      rw [filter_cons, if_neg he, foldl_cons, hheld, ih]

theorem Holds.answer (h : s.Holds ttl rows) (now : Float) (key : String) : s.answer now key =
      .ok (((rows.lookup key).filter (stillGood ttl now ·.2)).map fun e => .text e.1) := by
  rw [CacheStore.answer, h.memory, Cache.get_holding]
  cases rows.lookup key with
  | none => rfl
  | some e =>
    obtain ⟨response, entered⟩ := e
    cases hgood : stillGood ttl now entered <;> simp [Option.filter, hgood]

/-- Whatever was done with a store, and however often it was replaced by a new one on the same file:
a look for an answer gives the same as if the store had never been replaced, namely the response that
stands in the log under the key, if it is still good now, and nothing otherwise. -/
theorem answer_after_restarts (ttl : Option Number) (log : List (Float × Act)) (now : Float) (key : String) :
    ∃ s s' found, (fresh ttl).run log = .ok s ∧ (fresh ttl).run (log.filter (·.2.isUse)) = .ok s' ∧
      s.answer now key = .ok found ∧ s'.answer now key = .ok found ∧
      ∀ v, found = some v ↔ ∃ response entered, v = .text response ∧
        Stands ttl log key response entered ∧ stillGood ttl now entered := by
  obtain ⟨s, hrun, h⟩ := (holds_fresh ttl).run log
  obtain ⟨s', hrun', h'⟩ := (holds_fresh ttl).run (log.filter (·.2.isUse))
  rw [held_uses] at h'
  refine ⟨s, s', _, hrun, hrun', h.answer now key, h'.answer now key, ?_⟩
  intro v
  simp only [← lookup_held, Option.map_eq_some_iff, Option.filter_eq_some_iff]
  constructor
  · rintro ⟨⟨response, entered⟩, ⟨hlook, hgood⟩, rfl⟩
    exact ⟨response, entered, rfl, hlook, hgood⟩
  · rintro ⟨response, entered, rfl, hlook, hgood⟩
    exact ⟨(response, entered), ⟨hlook, hgood⟩, rfl⟩

end CacheStore

end Llm

end SecScan
