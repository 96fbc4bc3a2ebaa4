import Mathlib.Order.Bounds.Basic
import SecScan.Proofs.Keyed
import SecScan.Supply.Typosquat

/-!
Names that a few edits turn into popular ones. The table of the distance holds the least numbers of edits
between the beginnings of two sequences (`isLeast_distance`), and the candidates for a package are exactly the
popular names whose distance to it is within the threshold (`candidates_exact`).
-/

namespace SecScan.Supply

open List Text

variable {α : Type} {s t u : List α} {c d : α} {n : Nat}

/-- One element is inserted, deleted or replaced. -/
inductive Edit : List α → List α → Prop where
  | insert (l r : List α) (c : α) : Edit (l ++ r) (l ++ c :: r)
  | delete (l r : List α) (c : α) : Edit (l ++ c :: r) (l ++ r)
  | substitute (l r : List α) (c d : α) : Edit (l ++ c :: r) (l ++ d :: r)

/-- So many edits after each other. -/
inductive Edits : Nat → List α → List α → Prop where
  | none (s : List α) : Edits 0 s s
  | step {n : Nat} {s t u : List α} : Edit s t → Edits n t u → Edits (n + 1) s u

variable (c : α)

theorem Edit.cons (h : Edit s t) : Edit (c :: s) (c :: t) := by
  cases h with
  | insert l r x => exact .insert (c :: l) r x
  | delete l r x => exact .delete (c :: l) r x
  | substitute l r x y => exact .substitute (c :: l) r x y

theorem Edit.reverse (h : Edit s t) : Edit s.reverse t.reverse := by
  cases h with
  | insert l r x => simpa using Edit.insert r.reverse l.reverse x
  | delete l r x => simpa using Edit.delete r.reverse l.reverse x
  | substitute l r x y => simpa using Edit.substitute r.reverse l.reverse x y

theorem Edits.map {f : List α → List α} (hf : ∀ {s t}, Edit s t → Edit (f s) (f t)) (h : Edits n s t) :
    Edits n (f s) (f t) := by
  induction h with
  | none s => exact .none _
  | step h _ ih => exact .step (hf h) ih

theorem Edits.reverse_iff : Edits n s.reverse t.reverse ↔ Edits n s t :=
  ⟨fun h => by simpa using h.map Edit.reverse, fun h => h.map Edit.reverse⟩

/-- An edit changes the length by one at most. -/
theorem Edits.length_le (h : Edits n s t) : s.length ≤ t.length + n ∧ t.length ≤ s.length + n := by
  induction h with
  | none s => simp
  | step h _ ih => cases h <;> simp only [length_append, length_cons] at ih ⊢ <;> omega

theorem Edits.insert_all (t : List α) : Edits t.length [] t := by
  induction t with
  | nil => exact .none []
  | cons d t ih => exact .step (.insert [] [] d) (ih.map (f := (d :: ·)) (.cons d))

theorem Edits.delete_all (s : List α) : Edits s.length s [] := by
  induction s with
  | nil => exact .none []
  | cons c s ih => exact .step (.delete [] s c) ih

/-! ## The distance by its recursion -/

variable [BEq α]

/-- The distance, by what becomes of the first elements. -/
def edits : List α → List α → Nat
  | [], t => t.length
  | s, [] => s.length
  | c :: s, d :: t =>
    min (min (edits s (d :: t) + 1) (edits (c :: s) t + 1)) (edits s t + if c == d then 0 else 1)

@[simp] theorem edits_nil_left (t : List α) : edits [] t = t.length := by rw [edits]

@[simp] theorem edits_nil_right (s : List α) : edits s [] = s.length := by cases s <;> simp [edits]

theorem edits_cons (c d : α) (s t : List α) : edits (c :: s) (d :: t)
    = min (min (edits s (d :: t) + 1) (edits (c :: s) t + 1)) (edits s t + if c == d then 0 else 1) := by
  rw [edits]

theorem edits_cons_left_le (s t : List α) : edits (c :: s) t ≤ edits s t + 1 := by
  cases t with
  | nil => simp
  | cons d t =>
    rw [edits_cons]
    omega

theorem edits_cons_right_le (d : α) (s t : List α) : edits s (d :: t) ≤ edits s t + 1 := by
  cases s with
  | nil => simp
  | cons c s =>
    rw [edits_cons]
    omega

theorem edits_le_cons_left (s t : List α) : edits s t ≤ edits (c :: s) t + 1 := by
  induction t with
  | nil => simp; omega
  | cons d t ih =>
    have hright := edits_cons_right_le d s t
    rw [edits_cons]
    omega

theorem edits_replaced_le (c d : α) (s t : List α) : edits (c :: s) t ≤ edits (d :: s) t + 1 := by
  induction t with
  | nil => simp
  | cons e t ih =>
    rw [edits_cons, edits_cons]
    split <;> split <;> omega

/-- One edit changes the distance to a third sequence by one at most. -/
theorem Edit.edits_le (h : Edit s t) (u : List α) : edits s u ≤ edits t u + 1 := by
  have hcons : ∀ {s t : List α} (x : α), (∀ u, edits s u ≤ edits t u + 1) →
      ∀ u, edits (x :: s) u ≤ edits (x :: t) u + 1 := by
    intro s t x h u
    induction u with
    | nil => simpa using h []
    | cons e u ih =>
      have hwhole := h (e :: u)
      have hrest := h u
      rw [edits_cons, edits_cons]
      omega
  have happend : ∀ {s t : List α} (l : List α), (∀ u, edits s u ≤ edits t u + 1) →
      ∀ u, edits (l ++ s) u ≤ edits (l ++ t) u + 1 := by
    intro s t l h
    induction l with
    | nil => exact h
    | cons x l ih => exact hcons x ih
  cases h with
  | insert l r c => exact happend l (edits_le_cons_left c r) u
  | delete l r c => exact happend l (edits_cons_left_le c r) u
  | substitute l r c d => exact happend l (edits_replaced_le c d r) u

section

variable [LawfulBEq α]

theorem edits_self (s : List α) : edits s s = 0 := by
  induction s with
  | nil => simp
  | cons c s ih => simp [edits_cons, ih]

theorem edits_comm (s t : List α) : edits s t = edits t s := by
  fun_induction edits s t with
  | case1 t => simp
  | case2 s => simp
  | case3 c s d t h1 h2 h3 =>
    rw [edits_cons, h1, h2, h3, BEq.comm (a := c)]
    omega

/-- No script is shorter. -/
theorem Edits.edits_le (h : Edits n s t) : edits s t ≤ n := by
  induction h with
  | none s => simp [edits_self]
  | step h _ ih => exact (h.edits_le _).trans (Nat.succ_le_succ ih)

/-- There is a script of that length. -/
theorem Edits.of_edits (s t : List α) : Edits (edits s t) s t := by
  fun_induction edits s t with
  | case1 t => exact .insert_all t
  | case2 s => exact .delete_all s
  | case3 c s d t hdelete hinsert hkeep =>
    rcases Std.min_eq_or (a := min (edits s (d :: t) + 1) (edits (c :: s) t + 1)) with h | h
    · rw [h]
      rcases Std.min_eq_or (a := edits s (d :: t) + 1) (b := edits (c :: s) t + 1) with h | h
      · rw [h]
        exact .step (.delete [] s c) hdelete
      · rw [h]
        exact .step (.insert [] (c :: s) d) (hinsert.map (f := (d :: ·)) (.cons d))
    · rw [h]
      have hrest := hkeep.map (f := (d :: ·)) (.cons d)
      split
      next heq => exact eq_of_beq heq ▸ hrest
      next => exact .step (.substitute [] s c d) hrest

theorem isLeast_edits (s t : List α) : IsLeast {n | Edits n s t} (edits s t) :=
  ⟨.of_edits s t, fun _ h => h.edits_le⟩

end

/-! ## The table -/

/-- The distances of a sequence to the beginnings of another that are longer than `q`, from the nearest to the
longest; both are given backwards, as the table goes through them. -/
def distances (p q : List α) : List α → List Nat
  | [] => [edits p q]
  | d :: t => edits p q :: distances p (d :: q) t

theorem distances_eq_cons (p q t : List α) : ∃ rest, distances p q t = edits p q :: rest := by
  cases t with
  | nil => exact ⟨_, rfl⟩
  | cons d t => exact ⟨_, rfl⟩

theorem distances_nil (q t : List α) : distances [] q t = range' q.length (t.length + 1) := by
  induction t generalizing q with
  | nil => simp [distances]
  | cons d t ih => rw [distances, ih, edits_nil_left, length_cons, length_cons, range'_succ (n := t.length + 1)]

/-- A row is filled with the distances of one element more. -/
theorem fillRow_distances (p q t : List α) :
    edits (c :: p) q :: fillRow c t (distances p q t) (edits (c :: p) q) = distances (c :: p) q t := by
  induction t generalizing q with
  | nil => simp [fillRow, distances]
  | cons d t ih =>
    obtain ⟨rest, hrest⟩ := distances_eq_cons p (d :: q) t
    have hentry : min (min (edits p (d :: q) + 1) (edits (c :: p) q + 1)) (edits p q + if c == d then 0 else 1)
        = edits (c :: p) (d :: q) := (edits_cons c d p q).symm
    rw [distances, distances, ← ih, hrest, fillRow, hentry]

theorem nextRow_distances (p t : List α) : nextRow t (distances p [] t) c = distances (c :: p) [] t := by
  obtain ⟨rest, hrest⟩ := distances_eq_cons p [] t
  rw [← fillRow_distances, nextRow, hrest]
  simp

theorem foldl_nextRow (s p t : List α) : s.foldl (nextRow t) (distances p [] t) = distances (s.reverse ++ p) [] t := by
  induction s generalizing p with
  | nil => rfl
  | cons c s ih => rw [foldl_cons, nextRow_distances, ih, reverse_cons, append_assoc, singleton_append]

theorem getLastD_distances (p q t : List α) (n : Nat) : (distances p q t).getLastD n = edits p (t.reverse ++ q) := by
  induction t generalizing q n with
  | nil => rfl
  | cons d t ih => rw [distances, getLastD_cons, ih, reverse_cons, append_assoc, singleton_append]

/-- The last entry is the distance of the sequences read backwards. -/
theorem tableEnd_eq (s t : List α) : tableEnd s t = edits s.reverse t.reverse := by
  have hfirst : range (t.length + 1) = distances [] [] t := by rw [distances_nil, range_eq_range', length_nil]
  rw [tableEnd, hfirst, foldl_nextRow, getLastD_distances, append_nil, append_nil]

variable [LawfulBEq α] (s t)

theorem distance_eq : distance s t = edits s.reverse t.reverse := by
  unfold distance
  split
  · split
    next hs => simp [isEmpty_iff.mp hs]
    next => rw [tableEnd_eq, edits_comm]
  · split
    next ht => simp [isEmpty_iff.mp ht]
    next => exact tableEnd_eq s t

/-- The table computes the least number of edits. -/
theorem isLeast_distance : IsLeast {n | Edits n s t} (distance s t) := by
  have h := isLeast_edits s.reverse t.reverse
  simpa only [Edits.reverse_iff, ← distance_eq] using h

theorem distance_comm : distance s t = distance t s := by rw [distance_eq, distance_eq, edits_comm]

/-! ## Candidates -/

/-- A name that is near has not too different a length. -/
theorem natAbs_length_le {name popular : String} {k : Int} (h : (distance name.toList popular.toList : Int) ≤ k) :
    (((name.length : Int) - popular.length).natAbs : Int) ≤ k := by
  have hlength := (isLeast_distance name.toList popular.toList).1.length_le
  simp only [String.length_toList] at hlength
  omega

theorem isNear_iff (s : Scanner) (name popular : String) : s.isNear name popular = true
    ↔ 1 ≤ distance name.toList popular.toList ∧ (distance name.toList popular.toList : Int) ≤ s.threshold := by
  simp only [Scanner.isNear, Bool.and_eq_true, Bool.not_eq_true', decide_eq_false_iff_not, decide_eq_true_eq,
    Int.not_lt]
  exact ⟨fun h => h.2, fun h => ⟨natAbs_length_le h.2, h⟩⟩

/-- The candidates for a package are, without repetition, the popular names whose distance is within the
threshold and not zero. -/
theorem candidates_exact (names : List String) (threshold : Int) (package : String) (hnames : names ≠ [])
    (hpopular : lower package ∉ names) :
    (∀ s t : List Char, IsLeast {n | Edits n s t} (distance s t) ∧ distance s t = distance t s)
    ∧ ∃ l, Criteria.candidates ⟨names.map .text, .int threshold⟩ (.text package) = .ok l ∧ l.Nodup
      ∧ ∀ p, p ∈ l ↔ p ∈ names ∧ ∃ d, IsLeast {n | Edits n (lower package).toList p.toList} d
        ∧ 1 ≤ d ∧ (d : Int) ≤ threshold := by
  refine ⟨fun s t => ⟨isLeast_distance s t, distance_comm s t⟩, ?_⟩
  have hmap : (names.map Value.text).mapM Value.text? = some names := by
    have hpure := mapM_pure (m := Option) (f := id) (l := names)
    rw [mapM_map]
    exact hpure.trans (congrArg some (map_id names))
  have hany : (names.map Value.text).any (fun p => p.text? == some (lower package)) = false := by
    simp only [any_map, any_eq_false, Function.comp_apply, Value.text?, beq_iff_eq, Option.some.injEq]
    exact fun p hp heq => hpopular (heq ▸ hp)
  have hscanner : (Scanner.of names threshold).candidates package
      = names.eraseDups.filter ((Scanner.of names threshold).isNear (lower package)) := by
    simp [Scanner.candidates, Scanner.of, hnames, hpopular]
  have hperm := mergeSort_perm ((Scanner.of names threshold).candidates package) (· ≤ ·)
  refine ⟨((Scanner.of names threshold).candidates package).mergeSort (· ≤ ·), ?_, ?_, fun p => ?_⟩
  · simp only [Criteria.candidates, Value.asText, bind, Except.bind, hany, hmap]
    rfl
  · rw [hperm.nodup_iff, hscanner]
    exact (nodup_eraseDups names).filter _
  · rw [hperm.mem_iff, hscanner, mem_filter, mem_eraseDups, isNear_iff]
    have hleast := isLeast_distance (lower package).toList p.toList
    refine and_congr_right fun _ => ⟨fun h => ⟨_, hleast, h⟩, ?_⟩
    rintro ⟨d, hd, h⟩
    rwa [hleast.unique hd]

theorem requets_mistaken : lower "Requets" ∉ ["requests", "six"]
    ∧ ∃ l, Criteria.candidates ⟨["requests", "six"].map .text, .int 2⟩ (.text "Requets") = .ok l
      ∧ "requests" ∈ l ∧ "six" ∉ l := by
  have hpopular : lower "Requets" ∉ ["requests", "six"] := by decide
  obtain ⟨hleast, l, hl, -, hmem⟩ := candidates_exact ["requests", "six"] 2 "Requets" (by simp) hpopular
  have hnear : distance (lower "Requets").toList "requests".toList = 1 := by decide
  have hfar : distance (lower "Requets").toList "six".toList = 7 := by decide
  refine ⟨hpopular, l, hl, (hmem _).mpr ⟨by simp, 1, hnear ▸ (hleast _ _).1, by decide⟩, fun h => ?_⟩
  obtain ⟨-, d, hd, -, hle⟩ := (hmem _).mp h
  rw [hd.unique (hleast _ _).1, hfar] at hle
  exact absurd hle (by decide)

end SecScan.Supply
