import SecScan.Value.Access
import Mathlib.Data.List.Forall2
import Mathlib.Data.List.Induction
import Mathlib.Data.List.Nodup
import Mathlib.Logic.Relation

/-!
Keyed lists, results that can fail, and separated texts. Entering a value under a key changes what is
found under that key only (`lookup_putField`, `Value.get?_put`), and what is grouped under a key is what stood
under it (`mem_lookup_grouped`). A text that ends in a separator and a
number determines both its parts (`numbered_inj`).
-/

namespace SecScan

open List

variable {α β ε : Type} {m n : Nat}
variable {k : String}

/-! ## Keyed lists -/

theorem lookup_putField (k w : String) (x : α) (l : List (String × α)) :
    (putField k x l).lookup w = if w = k then some x else l.lookup w := by
  induction l with
  | nil =>
    by_cases hw : w = k
    · simp [putField, hw]
    · have hb : (w == k) = false := by simpa using hw
      simp [putField, lookup_cons, hb, hw]
  | cons e l ih =>
    obtain ⟨k', x'⟩ := e
    by_cases hk : k' = k
    · subst hk
      by_cases hw : w = k'
      · simp [putField, hw]
      · have hb : (w == k') = false := by simpa using hw
        simp [putField, lookup_cons, hb, hw]
    · have hkb : (k' == k) = false := by simpa using hk
      simp only [putField, hkb, Bool.false_eq_true, ↓reduceIte, lookup_cons]
      by_cases hw : w = k'
      · subst hw
        simp [hk]
      · have hb : (w == k') = false := by simpa using hw
        simp only [hb]
        exact ih

theorem mem_putField {x : α} {l : List (String × α)} {e : String × α}
    (h : e ∈ putField k x l) : e = (k, x) ∨ e ∈ l := by
  induction l with
  | nil => simpa [putField] using h
  | cons e' l ih =>
    obtain ⟨k', x'⟩ := e'
    by_cases hk : k' = k
    · subst hk
      simp only [putField, beq_self_eq_true, ↓reduceIte, mem_cons] at h
      exact h.imp_right fun he => .tail _ he
    · simp only [putField, beq_iff_eq, hk, ↓reduceIte, mem_cons] at h
      rcases h with rfl | h
      · exact .inr mem_cons_self
      · exact (ih h).imp_right fun he => .tail _ he

theorem mem_of_lookup {κ : Type} [BEq κ] [LawfulBEq κ] {k : κ} {x : α} {l : List (κ × α)} (h : l.lookup k = some x) :
    (k, x) ∈ l := by
  obtain ⟨l₁, l₂, rfl, -⟩ := lookup_eq_some_iff.mp h
  simp

theorem lookup_map (f : α → β) (k : String) (l : List (String × α)) :
    (l.map fun e => (e.1, f e.2)).lookup k = (l.lookup k).map f := by
  simp only [lookup_eq_findSome?, findSome?_map, map_findSome?, Function.comp_def, apply_ite (Option.map f),
    Option.map_some, Option.map_none]

theorem lookup_filter_key (p : String → Bool) (k : String) (l : List (String × α)) :
    (l.filter (p ·.1)).lookup k = if p k then l.lookup k else none := by
  induction l with
  | nil => simp
  | cons e l ih =>
    obtain ⟨k', x⟩ := e
    rw [filter_cons]
    by_cases hk : k = k'
    · subst hk
      cases hp : p k <;> simp [ih, hp]
    · have hb : (k == k') = false := by simpa using hk
      cases hp : p k' <;> simp [ih, hb, lookup_cons]

theorem lookup_filter (k w : String) (l : List (String × α)) :
    (l.filter (·.1 != k)).lookup w = if w = k then none else l.lookup w := by
  rw [lookup_filter_key (· != k)]
  by_cases hw : w = k <;> simp [hw]

theorem keys_putField (k : String) (x : α) (l : List (String × α)) :
    (putField k x l).map (·.1) = if k ∈ l.map (·.1) then l.map (·.1) else l.map (·.1) ++ [k] := by
  induction l with
  | nil => simp [putField]
  | cons e l ih =>
    obtain ⟨k', x'⟩ := e
    by_cases hk : k' = k
    · subst hk
      simp [putField]
    · have hne : (k' == k) = false := by simpa using hk
      simp only [putField, hne, Bool.false_eq_true, ↓reduceIte, map_cons, ih, mem_cons, Ne.symm hk, false_or]
      split <;> simp

theorem nodup_putField {x : α} {l : List (String × α)} (h : (l.map (·.1)).Nodup) :
    ((putField k x l).map (·.1)).Nodup := by
  rw [keys_putField]
  split
  · exact h
  · next hk => exact nodup_append.mpr ⟨h, by simp, by simpa using fun a b ha hab => hk (by simp_all)⟩

theorem putField_new {x : α} {l : List (String × α)} (h : k ∉ l.map (·.1)) : putField k x l = l ++ [(k, x)] := by
  induction l with
  | nil => rfl
  | cons e l ih =>
    obtain ⟨k', x'⟩ := e
    simp only [map_cons, mem_cons, not_or] at h
    have hne : (k' == k) = false := by simpa using Ne.symm h.1
    simp [putField, hne, ih h.2]

section grouped

variable {κ : Type} [BEq κ] [LawfulBEq κ]

theorem lookup_map_self (l : List κ) (f : κ → α) (k : κ) :
    (l.map fun x => (x, f x)).lookup k = if k ∈ l then some (f k) else none := by
  split
  · next h => exact lookup_graph f h
  · next h =>
    rw [lookup_eq_none_iff, forall_mem_map]
    intro x hx
    exact bne_iff_ne.mpr fun heq => h (heq ▸ hx)

variable [BEq α] [LawfulBEq α] {l : List (κ × α)} {k : κ} {x : α}

theorem mem_grouped {xs : List α} (h : (k, xs) ∈ grouped l) : x ∈ xs ↔ (k, x) ∈ l := by
  obtain ⟨_, -, heq⟩ := mem_map.mp h
  cases heq
  simp

theorem mem_lookup_grouped : x ∈ ((grouped l).lookup k).getD [] ↔ (k, x) ∈ l := by
  rw [grouped, lookup_map_self]
  split
  · simp
  · next hk =>
    simp only [mem_eraseDups, mem_map, not_exists, not_and] at hk
    simpa using fun h => hk _ h rfl

end grouped

/-! ## Maps -/

namespace Value

theorem get?_obj (fields : Fields) (k : String) : (obj fields).get? k = fields.lookup k := by
  rw [obj, get?, lookup]
  induction fields with
  | nil => rfl
  | cons e fields ih =>
    obtain ⟨k', v⟩ := e
    by_cases hk : k = k'
    · subst hk
      simp [isKey]
    · have hb : (k == k') = false := by simpa using hk
      have hb' : (k' == k) = false := by simpa using Ne.symm hk
      simpa [isKey, lookup_cons, hb, hb'] using ih

theorem get?_put {v : Value} (h : v.isMap = true) (k w : String) (x : Value) :
    (v.put k x).get? w = if w = k then some x else v.get? w := by
  cases v with
  | map es =>
    change lookup (putText k x es) w = if w = k then some x else lookup es w
    induction es with
    | nil =>
      by_cases hw : w = k
      · simp [putText, lookup, isKey, hw]
      · simp [putText, lookup, isKey, hw, Ne.symm hw]
    | cons e es ih =>
      obtain ⟨k', x'⟩ := e
      simp only [lookup] at ih
      by_cases hk : isKey k k' = true
      · have hkey : ∀ u, isKey u k' = decide (k = u) := by
          intro u
          cases k' with
          | text s =>
            obtain rfl : s = k := by simpa [isKey] using hk
            simp [isKey, Bool.beq_eq_decide_eq]
          | _ => cases hk
        by_cases hw : w = k
        · simp [putText, lookup, hkey, hw]
        · simp [putText, lookup, hkey, hw, Ne.symm hw]
      · simp only [putText, hk, Bool.false_eq_true, ↓reduceIte, lookup, List.find?_cons]
        by_cases hkw : isKey w k' = true
        · have hw : w ≠ k := fun heq => hk (heq ▸ hkw)
          simp [hkw, hw]
        · simpa [hkw] using ih rfl
  | _ => cases h

theorem field_of_isMap {v : Value} (h : v.isMap = true) (k : String) (d : Value) : v.field k d = .ok (v.getD k d) := by
  cases v with
  | map es => rfl
  | _ => cases h

end Value

/-! ## Results that can fail -/

variable {x : Except ε α} {f : α → Except ε β}

theorem bind_eq_ok {b : β} :
    (x >>= f) = .ok b ↔ ∃ a, x = .ok a ∧ f a = .ok b := by
  cases x with
  | error e =>
    constructor
    · intro h
      cases h
    · rintro ⟨a, h, -⟩
      cases h
  | ok a =>
    constructor
    · intro h
      exact ⟨a, rfl, h⟩
    · rintro ⟨a', h, hf⟩
      cases h
      exact hf

theorem map_eq_ok {f : α → β} {b : β} : x.map f = .ok b ↔ ∃ a, x = .ok a ∧ f a = b := by
  cases x <;> simp [Except.map]

theorem toOption_eq_some {a : α} : x.toOption = some a ↔ x = .ok a := by
  cases x <;> simp [Except.toOption]

theorem mapM_eq_ok {l : List α} {r : List β} :
    l.mapM f = .ok r ↔ List.Forall₂ (fun a b => f a = .ok b) l r := by
  induction l generalizing r with
  | nil =>
    rw [mapM_nil, forall₂_nil_left_iff]
    constructor
    · intro h
      cases h
      rfl
    · rintro rfl
      rfl
  | cons a l ih =>
    rw [mapM_cons, bind_eq_ok, forall₂_cons_left_iff]
    constructor
    · rintro ⟨b, hb, h⟩
      obtain ⟨r', hr, h⟩ := bind_eq_ok.mp h
      cases h
      exact ⟨b, r', hb, ih.mp hr, rfl⟩
    · rintro ⟨b, r', hb, hr, rfl⟩
      exact ⟨b, hb, bind_eq_ok.mpr ⟨r', ih.mpr hr, rfl⟩⟩

theorem exists_of_forall₂ {R : α → β → Prop} {l : List α} {r : List β} (h : List.Forall₂ R l r) {a : α} (ha : a ∈ l) :
    ∃ b ∈ r, R a b := by
  induction h with
  | nil => cases ha
  | @cons a' b l r hb _ ih =>
    rcases mem_cons.mp ha with rfl | ha
    · exact ⟨b, mem_cons_self, hb⟩
    · obtain ⟨b', hb', hR⟩ := ih ha
      exact ⟨b', .tail _ hb', hR⟩

theorem exists_of_mapM {l : List α} {r : List β} (h : l.mapM f = .ok r) {a : α}
    (ha : a ∈ l) : ∃ b ∈ r, f a = .ok b := exists_of_forall₂ (mapM_eq_ok.mp h) ha

theorem exists_of_mem_mapM {l : List α} {r : List β} (h : l.mapM f = .ok r) {b : β}
    (hb : b ∈ r) : ∃ a ∈ l, f a = .ok b := exists_of_forall₂ (mapM_eq_ok.mp h).flip hb

theorem error_of_mapM {l : List α} {e : ε} (h : l.mapM f = .error e) : ∃ a ∈ l, f a = .error e := by
  induction l with
  | nil => cases h
  | cons a l ih =>
    rw [mapM_cons] at h
    cases ha : f a with
    | error e' =>
      rw [ha] at h
      cases h
      exact ⟨a, mem_cons_self, ha⟩
    | ok b =>
      cases hl : l.mapM f with
      | error e' =>
        rw [ha, hl] at h
        cases h
        obtain ⟨a', ha', hf⟩ := ih hl
        exact ⟨a', .tail _ ha', hf⟩
      | ok r =>
        rw [ha, hl] at h
        cases h

theorem mapM_ok {l : List α} (h : ∀ a ∈ l, ∃ b, f a = .ok b) : ∃ r, l.mapM f = .ok r := by
  induction l with
  | nil => exact ⟨[], rfl⟩
  | cons a l ih =>
    obtain ⟨b, hb⟩ := h a mem_cons_self
    obtain ⟨r, hr⟩ := ih fun a ha => h a (.tail _ ha)
    exact ⟨b :: r, by rw [mapM_cons, hb, hr]; rfl⟩

/-! ## Lists without repetition -/

theorem nodup_eraseDups (l : List String) : l.eraseDups.Nodup := by
  induction hlen : l.length using Nat.strongRecOn generalizing l with
  | ind n ih =>
    cases l with
    | nil => simp
    | cons a l =>
      have hlt : (l.filter (! · == a)).length < n := by
        rw [← hlen, length_cons]
        exact Nat.lt_succ_of_le (length_filter_le _ _)
      rw [eraseDups_cons, nodup_cons]
      exact ⟨by simp, ih _ hlt _ rfl⟩

theorem nodup_concat {l : List α} {a : α} (hl : l.Nodup) (ha : a ∉ l) : (l ++ [a]).Nodup := by
  simpa using Nodup.concat ha hl

/-! ## Separated texts -/

/-- A text is split in one way by its last separator. -/
theorem append_separator_inj {x y s t : List α} {a : α} (hs : a ∉ s) (ht : a ∉ t)
    (h : x ++ a :: s = y ++ a :: t) : x = y ∧ s = t := by
  rcases append_eq_append_iff.mp h with ⟨l, rfl, heq⟩ | ⟨l, rfl, heq⟩
  · cases l with
    | nil => simpa using heq
    | cons b l =>
      obtain ⟨-, rfl⟩ := List.cons.inj heq
      simp at hs
  · cases l with
    | nil => simpa using heq.symm
    | cons b l =>
      obtain ⟨-, rfl⟩ := List.cons.inj heq
      simp at ht

theorem toDigits_inj (h : Nat.toDigits 10 m = Nat.toDigits 10 n) : m = n := by
  have hnumber := congrArg (fun digits => Nat.ofDigitChars 10 digits 0) h
  simpa only [Nat.ofDigitChars_ten_toDigits] using hnumber

theorem numbered_inj {x y sep : String} {c : Char} (hsep : sep.toList = [c])
    (hc : c.isDigit = false) (h : x ++ sep ++ toString m = y ++ sep ++ toString n) : x = y ∧ m = n := by
  have hdigit : ∀ k : Nat, c ∉ Nat.toDigits 10 k := by
    intro k hk
    rw [Nat.isDigit_of_mem_toDigits (by decide) (by decide) hk] at hc
    cases hc
  have hlist : x.toList ++ c :: Nat.toDigits 10 m = y.toList ++ c :: Nat.toDigits 10 n := by
    simpa [Nat.toString_eq_repr, hsep] using congrArg String.toList h
  obtain ⟨hname, hdigits⟩ := append_separator_inj (hdigit m) (hdigit n) hlist
  exact ⟨String.toList_inj.mp hname, toDigits_inj hdigits⟩

end SecScan
