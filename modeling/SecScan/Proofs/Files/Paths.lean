import SecScan.Path
import Mathlib.Data.List.Basic

/-!
Normal paths. An absolute path is its root and the names on its way; normalizing it keeps both and can be
done once (`normalize_idem`), and from one place to two different ones lead different ways
(`parts_eq_of_relative`).
-/

namespace SecScan

open List Text

variable {a b p q r s : String} {l : List String}

/-! ## Pieces -/

namespace Text

theorem splitFrom_eq (a : Char) (l cur : List Char) :
    splitFrom [a] cur 0 l = (splitOnPPrepend (· == a) l cur).map String.ofList := by
  induction l generalizing cur with
  | nil => rfl
  | cons c l ih =>
    by_cases hc : c = a
    · subst hc
      simp [splitFrom, splitOnPPrepend, ih]
    · have hb : (c == a) = false := by simpa using hc
      simp [splitFrom, splitOnPPrepend_cons_neg, Ne.symm hc, hb, ih]

theorem split_eq {sep : String} {a : Char} (hsep : sep.toList = [a]) (s : String) :
    split s sep = (s.toList.splitOn a).map String.ofList := by
  rw [split, hsep, splitFrom_eq, splitOn_eq_splitOnP, splitOnP_eq_splitOnPPrepend]

/-- No piece has the separator in it. -/
theorem not_mem_of_mem_splitOn {α : Type} [DecidableEq α] (a : α) (l : List α) : ∀ x ∈ l.splitOn a, a ∉ x := by
  induction l with
  | nil => simp [splitOn_eq_splitOnP]
  | cons c l ih =>
    rw [splitOn_cons_eq_if_modifyHead]
    split
    · simpa using ih
    · next hc =>
      obtain ⟨x, xs, hx⟩ := exists_cons_of_ne_nil (splitOn_ne_nil a l)
      rw [hx] at ih ⊢
      intro y hy
      simp only [modifyHead_cons, mem_cons] at hy ih
      rcases hy with rfl | hy
      · simp only [beq_iff_eq] at hc
        simpa [Ne.symm hc] using ih x (.inl rfl)
      · exact ih y (.inr hy)

end Text

namespace Path

/-! ## Names -/

/-- A name on a normal way. -/
structure IsName (s : String) : Prop where
  ne_empty : s ≠ ""
  ne_dot : s ≠ "."
  ne_up : s ≠ ".."
  no_slash : '/' ∉ s.toList

theorem split_slash (p : String) : split p "/" = (p.toList.splitOn '/').map String.ofList := split_eq rfl p

theorem no_slash_of_mem_split (h : s ∈ split p "/") : '/' ∉ s.toList := by
  rw [split_slash] at h
  obtain ⟨l, hl, rfl⟩ := mem_map.mp h
  rw [String.toList_ofList]
  exact not_mem_of_mem_splitOn '/' _ l hl

theorem normalizeStep_empty (absolute : Bool) (done : List String) : normalizeStep absolute done "" = done := rfl

theorem normalizeStep_name (h : IsName s) (absolute : Bool) (done : List String) :
    normalizeStep absolute done s = s :: done := by
  simp [normalizeStep, h.ne_empty, h.ne_dot, h.ne_up]

theorem foldl_names (absolute : Bool) (h : ∀ s ∈ l, IsName s) (done : List String) :
    l.foldl (normalizeStep absolute) done = l.reverse ++ done := by
  induction l generalizing done with
  | nil => rfl
  | cons s l ih =>
    rw [foldl_cons, normalizeStep_name (h s (by simp)), ih fun t ht => h t (by simp [ht])]
    simp

/-- From the root no way leads up. -/
theorem isName_normalizeStep {done : List String} (hdone : ∀ s ∈ done, IsName s) {part : String}
    (hpart : '/' ∉ part.toList) : ∀ s ∈ normalizeStep true done part, IsName s := by
  unfold normalizeStep
  split
  · exact hdone
  · next hempty =>
    simp only [Bool.or_eq_true, beq_iff_eq, not_or] at hempty
    split
    · next hup =>
      simp only [bne_iff_ne, ne_eq] at hup
      intro s hs
      rcases mem_cons.mp hs with rfl | hs
      · exact ⟨hempty.1, hempty.2, hup, hpart⟩
      · exact hdone s hs
    · split
      · simp
      · exact absurd rfl (hdone ".." (by simp)).ne_up
      · exact fun s hs => hdone s (by simp [hs])

theorem isName_foldl (hl : ∀ s ∈ l, '/' ∉ s.toList) {done : List String}
    (hdone : ∀ s ∈ done, IsName s) : ∀ s ∈ l.foldl (normalizeStep true) done, IsName s := by
  induction l generalizing done with
  | nil => exact hdone
  | cons t l ih => exact ih (fun s hs => hl s (by simp [hs])) (isName_normalizeStep hdone (hl t (by simp)))

/-- The way of an absolute path has only names on it. -/
theorem isName_of_mem_parts (hp : isAbsolute p = true) (h : s ∈ parts p) : IsName s := by
  rw [parts, hp, mem_reverse] at h
  exact isName_foldl (fun t ht => no_slash_of_mem_split ht) (by simp) s h

/-! ## Roots -/

theorem isAbsolute_iff (p : String) : isAbsolute p = true ↔ ∃ l, p.toList = '/' :: l := by
  have hslash : "/".toList = ['/'] := rfl
  rw [isAbsolute, hasPrefix, hslash]
  cases h : p.toList with
  | nil => simp
  | cons c l =>
    simp only [isPrefixOf, Bool.and_true, beq_iff_eq, cons.injEq, exists_and_left, exists_eq', and_true]
    exact eq_comm

def ofNames (root : String) (l : List String) : String := root ++ String.intercalate "/" l

theorem isAbsolute_intercalate (hl : ∀ s ∈ l, IsName s) : isAbsolute (String.intercalate "/" l) = false := by
  cases l with
  | nil => decide
  | cons s l =>
    have hs := hl s (by simp)
    obtain ⟨c, r, hcons⟩ := exists_cons_of_ne_nil (mt String.toList_eq_nil_iff.mp hs.ne_empty)
    have hne : '/' ≠ c := by
      rintro rfl
      exact hs.no_slash (by simp [hcons])
    cases l <;> simp [isAbsolute, hasPrefix, String.intercalate_cons_cons, hcons, isPrefixOf, hne]

theorem IsName.isAbsolute_eq_false (hb : IsName b) : isAbsolute b = false := by
  simpa using isAbsolute_intercalate (l := [b]) (by simpa using hb)

theorem root_cases (hp : isAbsolute p = true) : root p = "/" ∨ root p = "//" := by
  rw [root, if_pos hp]
  split
  · exact .inr rfl
  · exact .inl rfl

theorem isAbsolute_ofNames (hr : r = "/" ∨ r = "//") (l : List String) : isAbsolute (ofNames r l) = true := by
  rw [isAbsolute_iff]
  rcases hr with rfl | rfl <;> exact ⟨_, by rw [ofNames, String.toList_append]; rfl⟩

theorem root_ofNames (hr : r = "/" ∨ r = "//") (hl : ∀ s ∈ l, IsName s) : root (ofNames r l) = r := by
  have hnext : ¬ ['/'] <+: ['/'].intercalate (l.map String.toList) := fun h => by
    simpa [isAbsolute, hasPrefix, isPrefixOf_iff_prefix.mpr h] using isAbsolute_intercalate hl
  rcases hr with rfl | rfl <;> simp [root, isAbsolute, hasPrefix, ofNames, isPrefixOf, hnext]

theorem split_intercalate (hl : ∀ s ∈ l, '/' ∉ s.toList) (hne : l ≠ []) : split (String.intercalate "/" l) "/" = l := by
  have hslash : "/".toList = ['/'] := rfl
  rw [split_slash, String.toList_intercalate, hslash, splitOn_intercalate]
  · simp [Function.comp_def]
  · intro t ht
    obtain ⟨s, hs, rfl⟩ := mem_map.mp ht
    exact hl s hs
  · simpa using hne

theorem foldl_intercalate (hl : ∀ s ∈ l, IsName s) (done : List String) :
    (split (String.intercalate "/" l) "/").foldl (normalizeStep true) done = l.reverse ++ done := by
  by_cases hne : l = []
  · subst hne
    rfl
  · rw [split_intercalate (fun s hs => (hl s hs).no_slash) hne, foldl_names true hl]

theorem parts_ofNames (hr : r = "/" ∨ r = "//") (hl : ∀ s ∈ l, IsName s) : parts (ofNames r l) = l := by
  have hslash : "/".toList = ['/'] := rfl
  have hsplit : ∀ s : String, split ("/" ++ s) "/" = "" :: split s "/" := by
    intro s
    rw [split_slash, split_slash, String.toList_append, hslash, singleton_append, splitOn_cons_eq_if_modifyHead]
    rfl
  rw [parts, isAbsolute_ofNames hr]
  have hfold : (split (ofNames r l) "/").foldl (normalizeStep true) [] = l.reverse := by
    rcases hr with rfl | rfl
    · rw [ofNames, hsplit, foldl_cons, normalizeStep_empty, foldl_intercalate hl, append_nil]
    · have htwo : "//" = "/" ++ "/" := rfl
      rw [ofNames, htwo, String.append_assoc, hsplit, hsplit, foldl_cons, foldl_cons, normalizeStep_empty,
        normalizeStep_empty, foldl_intercalate hl, append_nil]
  rw [hfold, reverse_reverse]

/-! ## Normal paths -/

section

variable (hp : isAbsolute p = true)
include hp

theorem normalize_eq : normalize p = ofNames (root p) (parts p) := by
  unfold normalize
  rw [if_neg]
  · rfl
  · rcases root_cases hp with h | h <;> simp [h]

theorem isAbsolute_normalize : isAbsolute (normalize p) = true := by
  rw [normalize_eq hp]
  exact isAbsolute_ofNames (root_cases hp) _

theorem parts_normalize : parts (normalize p) = parts p := by
  rw [normalize_eq hp]
  exact parts_ofNames (root_cases hp) fun s hs => isName_of_mem_parts hp hs

theorem root_normalize : root (normalize p) = root p := by
  rw [normalize_eq hp]
  exact root_ofNames (root_cases hp) fun s hs => isName_of_mem_parts hp hs

theorem normalize_idem : normalize (normalize p) = normalize p := by
  rw [normalize_eq (isAbsolute_normalize hp), parts_normalize hp, root_normalize hp, ← normalize_eq hp]

/-- Two absolute paths are the same if they have the same root and the same names on their ways. -/
theorem normalize_inj (hq : isAbsolute q = true) : normalize p = normalize q ↔ root p = root q ∧ parts p = parts q := by
  constructor
  · intro h
    exact ⟨by rw [← root_normalize hp, h, root_normalize hq], by rw [← parts_normalize hp, h, parts_normalize hq]⟩
  · rintro ⟨hroot, hparts⟩
    rw [normalize_eq hp, normalize_eq hq, hroot, hparts]

theorem normalize_ne (hq : isAbsolute q = true) (h : parts p ≠ parts q) : normalize p ≠ normalize q :=
  fun heq => h ((normalize_inj hp hq).mp heq).2

end

/-! ## Joining -/

theorem join_absolute (hb : isAbsolute b = true) : join a b = b := if_pos hb

theorem absolute_of_isAbsolute {cwd : String} (hp : isAbsolute p = true) : absolute cwd p = normalize p := by
  rw [absolute, join_absolute hp]

theorem isAbsolute_join (ha : isAbsolute a = true) (b : String) : isAbsolute (join a b) = true := by
  unfold join
  split
  · assumption
  · obtain ⟨l, hl⟩ := (isAbsolute_iff a).mp ha
    rw [isAbsolute_iff]
    split
    · exact ⟨l ++ b.toList, by rw [String.toList_append, hl]; rfl⟩
    · exact ⟨l ++ '/' :: b.toList, by rw [String.toList_append, String.toList_append, hl]; simp⟩

theorem isAbsolute_absolute {cwd : String} (hcwd : isAbsolute cwd = true) (p : String) :
    isAbsolute (absolute cwd p) = true :=
  isAbsolute_normalize (isAbsolute_join hcwd p)

/-- The way of a joined path goes on where the way of the directory ends. -/
theorem parts_join (ha : isAbsolute a = true) (hb : isAbsolute b = false) :
    parts (join a b) = ((split b "/").foldl (normalizeStep true) (parts a).reverse).reverse := by
  have hslash : "/".toList = ['/'] := rfl
  have hne : a ≠ "" := by
    rintro rfl
    exact absurd ha (by decide)
  rw [parts, isAbsolute_join ha, parts, ha, reverse_reverse, ← foldl_append]
  congr 1
  unfold join
  rw [if_neg (by simp [hb])]
  by_cases hsuffix : hasSuffix a "/" = true
  · -- the slash at the end of the directory leaves an empty piece
    rw [if_pos (by simp [hsuffix])]
    rw [hasSuffix, hslash, isSuffixOf_iff_suffix] at hsuffix
    obtain ⟨x, hx⟩ := hsuffix
    have hjoined : split (a ++ b) "/" = (x.splitOn '/').map String.ofList ++ split b "/" := by
      rw [split_slash, split_slash, String.toList_append, ← hx, append_assoc, singleton_append,
        splitOn_append_cons_self, map_append]
    have hdir : split a "/" = (x.splitOn '/').map String.ofList ++ [""] := by
      rw [split_slash, ← hx, splitOn_append_cons_self, map_append]
      rfl
    rw [hjoined, hdir, foldl_append, foldl_append, foldl_append]
    rfl
  · rw [if_neg (by simp [hne, hsuffix]), split_slash, split_slash, split_slash, String.toList_append,
      String.toList_append, hslash, append_assoc, singleton_append, splitOn_append_cons_self, map_append]

theorem parts_join_name (ha : isAbsolute a = true) (hb : IsName b) : parts (join a b) = parts a ++ [b] := by
  have hsplit : split b "/" = [b] := by
    simpa using split_intercalate (l := [b]) (by simpa using hb.no_slash) (by simp)
  rw [parts_join ha hb.isAbsolute_eq_false, hsplit, foldl_cons, foldl_nil, normalizeStep_name hb, reverse_cons,
    reverse_reverse]

theorem parts_joinAll (ha : isAbsolute a = true) (hl : ∀ s ∈ l, IsName s) :
    isAbsolute (joinAll a l) = true ∧ parts (joinAll a l) = parts a ++ l := by
  induction l generalizing a with
  | nil => exact ⟨ha, (append_nil _).symm⟩
  | cons b l ih =>
    obtain ⟨habs, hparts⟩ := ih (isAbsolute_join ha b) fun s hs => hl s (by simp [hs])
    refine ⟨habs, hparts.trans ?_⟩
    rw [parts_join_name ha (hl b (by simp)), append_assoc, singleton_append]

/-! ## Ways between places -/

theorem commonLength_eq (a b : List String) : b = a.take (commonLength a b) ++ b.drop (commonLength a b)
    ∧ commonLength a b ≤ a.length := by
  induction a generalizing b with
  | nil => simp [commonLength]
  | cons x a ih =>
    cases b with
    | nil => simp [commonLength]
    | cons y b =>
      rw [commonLength]
      split
      · next h =>
        rw [beq_iff_eq] at h
        subst h
        obtain ⟨heq, hle⟩ := ih b
        exact ⟨by rw [take_succ_cons, drop_succ_cons, cons_append, ← heq], by simpa using hle⟩
      · simp

/-- The steps of the way from one place to another: up to where they part, and down again. -/
def steps (a b : List String) : List String := replicate (a.length - commonLength a b) ".." ++ b.drop (commonLength a b)

theorem no_slash_of_mem_steps {a b : List String} (hb : ∀ s ∈ b, IsName s) (h : s ∈ steps a b) :
    '/' ∉ s.toList ∧ s ≠ "." := by
  rcases mem_append.mp h with h | h
  · rw [eq_of_mem_replicate h]
    decide
  · have := hb s (mem_of_mem_drop h)
    exact ⟨this.no_slash, this.ne_dot⟩

theorem steps_inj {a b c : List String} (hb : ∀ s ∈ b, IsName s) (hc : ∀ s ∈ c, IsName s)
    (h : steps a b = steps a c) : b = c := by
  have hcount : ∀ d : List String, (∀ s ∈ d, IsName s) → (steps a d).count ".." = a.length - commonLength a d := by
    intro d hd
    have hzero : (d.drop (commonLength a d)).count ".." = 0 := by
      rw [count_eq_zero]
      intro hup
      exact (hd _ (mem_of_mem_drop hup)).ne_up rfl
    rw [steps, count_append, count_replicate_self, hzero, Nat.add_zero]
  obtain ⟨hb', hble⟩ := commonLength_eq a b
  obtain ⟨hc', hcle⟩ := commonLength_eq a c
  have hlength : commonLength a b = commonLength a c := by
    have := hcount b hb
    rw [h, hcount c hc] at this
    omega
  unfold steps at h
  rw [hlength] at h hb'
  calc b = a.take (commonLength a c) ++ b.drop (commonLength a c) := hb'
    _ = a.take (commonLength a c) ++ c.drop (commonLength a c) := by rw [append_cancel_left h]
    _ = c := hc'.symm

/-- The steps can be read off the way. -/
theorem split_relative (start : String) (hp : ∀ s ∈ parts p, IsName s) : split (relative start p) "/"
    = if steps (parts start) (parts p) = [] then ["."] else steps (parts start) (parts p) := by
  have heq : relative start p = if (steps (parts start) (parts p)).isEmpty then "."
      else String.intercalate "/" (steps (parts start) (parts p)) := rfl
  rw [heq]
  split
  · next hempty =>
    rw [if_pos (by simpa using hempty)]
    rfl
  · next hne =>
    rw [List.isEmpty_iff] at hne
    rw [if_neg hne, split_intercalate (fun s hs => (no_slash_of_mem_steps hp hs).1) hne]

/-- From one place different ways lead to different ones. -/
theorem parts_eq_of_relative {start : String} (hp : isAbsolute p = true) (hq : isAbsolute q = true)
    (h : relative start p = relative start q) : parts p = parts q := by
  have hpn : ∀ s ∈ parts p, IsName s := fun s hs => isName_of_mem_parts hp hs
  have hqn : ∀ s ∈ parts q, IsName s := fun s hs => isName_of_mem_parts hq hs
  have hdot : ∀ x : String, (∀ s ∈ parts x, IsName s) → ["."] ≠ steps (parts start) (parts x) :=
    fun x hx heq => (no_slash_of_mem_steps hx (heq ▸ mem_singleton_self ".")).2 rfl
  have hsteps := split_relative start hpn
  rw [h, split_relative start hqn] at hsteps
  apply steps_inj (a := parts start) hpn hqn
  split at hsteps
  · next hq =>
    split at hsteps
    · next hp => rw [hp, hq]
    · exact absurd hsteps (hdot p hpn)
  · split at hsteps
    · exact absurd hsteps.symm (hdot q hqn)
    · exact hsteps.symm

theorem commonLength_of_isPrefixOf {a b : List String} (h : a.isPrefixOf b = true) : commonLength a b = a.length := by
  induction a generalizing b with
  | nil => rfl
  | cons x a ih =>
    cases b with
    | nil => cases h
    | cons y b =>
      rw [isPrefixOf, Bool.and_eq_true] at h
      rw [commonLength, if_pos h.1, ih h.2, length_cons]

/-- The way to a path below a directory does not lead out of it. -/
theorem relative_of_isBelow {dir : String} (hp : isAbsolute p = true) (h : isBelow dir p = true) :
    hasPrefix (relative dir p) "../" = false ∧ relative dir p ≠ ".." := by
  have hsteps : ∀ s ∈ steps (parts dir) (parts p), IsName s := by
    intro s hs
    rw [steps, commonLength_of_isPrefixOf h, Nat.sub_self, replicate_zero, nil_append] at hs
    exact isName_of_mem_parts hp (mem_of_mem_drop hs)
  have hup : ".." ∉ split (relative dir p) "/" := by
    rw [split_relative dir fun s hs => isName_of_mem_parts hp hs]
    split
    · decide
    · exact fun hmem => (hsteps _ hmem).ne_up rfl
  constructor
  · by_contra hpre
    rw [Bool.not_eq_false] at hpre
    obtain ⟨r, hr⟩ := isPrefixOf_iff_prefix.mp hpre
    apply hup
    rw [split_slash, ← hr]
    have hcons : "../".toList ++ r = ['.', '.'] ++ '/' :: r := rfl
    rw [hcons, splitOn_append_cons_self_of_not_mem (by decide), map_cons]
    exact mem_cons_self
  · intro heq
    rw [heq] at hup
    exact hup (by decide)

end Path

end SecScan
