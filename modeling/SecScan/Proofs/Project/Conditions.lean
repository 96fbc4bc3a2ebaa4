import SecScan.Project.Dependency
import Mathlib.Data.List.Basic

/-!
Conditions on versions. A condition is an operator and a version, with white space around both. Where the
operator is looked for, those before it in the list do not stand in the condition, so it is split at its own
operator (`splitAtOperator_eq`). A condition that begins with a tilde is split after the tilde, and never reaches
the search (`condition_split`).
-/

namespace SecScan.Project

open Text List

def Blank (s : List Char) : Prop := ∀ c ∈ s, isBlank c = true

def operatorChars : List Char := ['<', '>', '=', '!', '~']

/-- No white space and no character of an operator: letters, digits, dots and hyphens, among others. -/
def Unmarked (s : List Char) : Prop := ∀ c ∈ s, isBlank c = false ∧ c ∉ operatorChars

variable {a b p r : List Char}

theorem not_blank_of_operator : ∀ c ∈ operatorChars, isBlank c = false := by
  have hall : operatorChars.all (!isBlank ·) = true := by decide
  simpa using hall

/-! ## White space around a text -/

theorem dropWhile_of_head (h : ∀ c ∈ r.head?, isBlank c = false) : r.dropWhile isBlank = r := by
  cases r with
  | nil => rfl
  | cons c r => rw [dropWhile_cons_of_neg (by simp [h c rfl])]

theorem trim_padded (ha : Blank a) (hb : Blank b) (hne : r ≠ []) (hhead : ∀ c ∈ r.head?, isBlank c = false)
    (hlast : ∀ c ∈ r.getLast?, isBlank c = false) : trimWith isBlank (a ++ (r ++ b)) = r := by
  have hstart : (r ++ b).dropWhile isBlank = r ++ b :=
    dropWhile_of_head (by rwa [head?_append_of_ne_nil _ hne])
  have hend : r.reverse.dropWhile isBlank = r.reverse := dropWhile_of_head (by rwa [head?_reverse])
  rw [trimWith, dropWhile_append_of_pos ha, hstart, reverse_append,
    dropWhile_append_of_pos fun c hc => hb c (mem_reverse.mp hc), hend, reverse_reverse]

/-! ## Looking for an operator -/

/-- A text without characters of operators adds no place where an operator stands. -/
theorem isPrefixOf_append_unmarked (hp : ∀ c ∈ p, c ∈ operatorChars) (hr : ∀ c ∈ r, c ∉ operatorChars) (s : List Char) :
    p.isPrefixOf (s ++ r) = p.isPrefixOf s := by
  induction p generalizing s with
  | nil => simp
  | cons c p ih =>
    cases s with
    | nil =>
      cases r with
      | nil => rfl
      | cons d r =>
        have hne : c ≠ d := fun heq => hr d (by simp) (heq ▸ hp c (by simp))
        simp [isPrefixOf, hne]
    | cons d s => rw [cons_append, isPrefixOf, isPrefixOf, ih fun e he => hp e (by simp [he])]

theorem indexFrom_append_unmarked (hp : ∀ c ∈ p, c ∈ operatorChars) (hne : p ≠ []) (hr : ∀ c ∈ r, c ∉ operatorChars)
    (s : List Char) (i : Nat) : indexFrom p i (s ++ r) = indexFrom p i s := by
  induction s generalizing i with
  | nil =>
    induction r generalizing i with
    | nil => rfl
    | cons c r ih =>
      obtain ⟨d, p, rfl⟩ := exists_cons_of_ne_nil hne
      have hnone : (d :: p).isPrefixOf (c :: r) = false := isPrefixOf_append_unmarked hp hr []
      have hskip : indexFrom (d :: p) i (c :: r) = indexFrom (d :: p) (i + 1) r := by
        rw [indexFrom, hnone]
        rfl
      rw [nil_append, hskip]
      exact ih (fun d hd => hr d (by simp [hd])) (i + 1)
  | cons c s ih =>
    rw [cons_append, indexFrom, indexFrom, ← cons_append, isPrefixOf_append_unmarked hp hr, ih]

/-- Of the operators that stand in an operator it is itself the first. -/
theorem first_in_operator : ∀ op ∈ versionOperators,
    versionOperators.findSome? (fun o => (index? op o).map (o, ·)) = some (op, 0) := by decide

/-- A condition is split at the first operator that stands in it, if that is the one it begins with. -/
theorem splitAtOperator_eq {op rest v : String} (hrest : ∀ c ∈ rest.toList, c ∉ operatorChars)
    (hv : strip rest = v) (hne : v ≠ "") (ops : List String)
    (hops : ∀ o ∈ ops, o.toList ≠ [] ∧ ∀ c ∈ o.toList, c ∈ operatorChars)
    (hfirst : ops.findSome? (fun o => (index? op o).map (o, ·)) = some (op, 0)) :
    splitAtOperator (op ++ rest) ops = (some v, some op) := by
  induction ops with
  | nil => cases hfirst
  | cons o ops ih =>
    obtain ⟨hnil, hchars⟩ := hops o (by simp)
    have hindex : index? (op ++ rest) o = index? op o := by
      simp only [index?, String.toList_append]
      exact indexFrom_append_unmarked hchars hnil hrest _ 0
    rw [splitAtOperator, cut?, hindex]
    rw [findSome?_cons] at hfirst
    cases hat : index? op o with
    | none => exact ih (fun o ho => hops o (by simp [ho])) (by simpa [hat] using hfirst)
    | some i =>
      obtain ⟨rfl, rfl⟩ : o = op ∧ i = 0 := by simpa [hat] using hfirst
      have hdrop : ((o ++ rest).drop o.length).copy = rest := by
        rw [← String.toList_inj]
        simp [← String.length_toList]
      simp [hdrop, hv, hne]

/-! ## Conditions -/

/-- A compatible version is taken for the operator of a tilde, with the rest of its own operator in the version. -/
theorem condition_split {op before between v after : String} (hop : op ∈ versionOperators) (hne : v ≠ "")
    (hv : Unmarked v.toList) (hbefore : Blank before.toList) (hbetween : Blank between.toList)
    (hafter : Blank after.toList) :
    splitCondition (before ++ op ++ between ++ v ++ after) =
      if op = "~=" then (some ("=" ++ (between ++ v)), some "~") else (some v, some op) := by
  have hnil : v.toList ≠ [] := by simpa using hne
  have hlast : ∀ t : List Char, ∀ c ∈ (t ++ v.toList).getLast?, isBlank c = false := by
    intro t c hc
    rw [getLast?_append_of_ne_nil _ hnil] at hc
    exact (hv c (mem_of_mem_getLast? hc)).1
  have hops : ∀ o ∈ versionOperators, o.toList ≠ [] ∧ o.toList.all (operatorChars.contains ·) = true := by decide
  simp only [all_eq_true, contains_iff_mem] at hops
  obtain ⟨hopne, hopchars⟩ := hops op hop
  have hstrip : strip (before ++ op ++ between ++ v ++ after) = op ++ (between ++ v) := by
    have hhead : ∀ c ∈ (op.toList ++ (between.toList ++ v.toList)).head?, isBlank c = false := by
      intro c hc
      rw [head?_append_of_ne_nil _ hopne] at hc
      exact not_blank_of_operator c (hopchars c (mem_of_mem_head? hc))
    have htrim := trim_padded (r := op.toList ++ (between.toList ++ v.toList)) hbefore hafter (by simp [hopne]) hhead
      (by rw [← append_assoc]; exact hlast _)
    rw [← String.toList_inj]
    simpa [strip] using htrim
  have hrest : ∀ c ∈ (between ++ v).toList, c ∉ operatorChars := by
    intro c hc
    rcases mem_append.mp (String.toList_append ▸ hc) with hc | hc
    · intro hmem
      exact absurd (hbetween c hc) (by simp [not_blank_of_operator c hmem])
    · exact (hv c hc).2
  have hinner : strip (between ++ v) = v := by
    have hhead : ∀ c ∈ v.toList.head?, isBlank c = false := fun c hc => (hv c (mem_of_mem_head? hc)).1
    have htrim := trim_padded (r := v.toList) (b := []) hbetween (by simp [Blank]) hnil hhead (hlast [])
    rw [← String.toList_inj]
    simpa [strip] using htrim
  have hsearch := splitAtOperator_eq hrest hinner hne versionOperators hops (first_in_operator op hop)
  rw [splitCondition, hstrip]
  simp only [versionOperators, mem_cons, not_mem_nil, or_false] at hop
  rcases hop with rfl | rfl | rfl | rfl | rfl | rfl | rfl | rfl
  all_goals simp [hsearch, holds, occursIn]

theorem condition_split_spaced : splitCondition " >= 2.0.1-rc1\n" = (some "2.0.1-rc1", some ">=") :=
  @condition_split ">=" " " " " "2.0.1-rc1" "\n" (by decide) (by decide) (by simp [Unmarked]; decide)
    (by simp [Blank]; decide) (by simp [Blank]; decide) (by simp [Blank]; decide)

/-- The operator of compatible versions is not found. -/
theorem compatible_not_split :
    "~=" ∈ versionOperators ∧ splitCondition ("~=" ++ "4.0.0") = (some "=4.0.0", some "~") := by decide

end SecScan.Project
