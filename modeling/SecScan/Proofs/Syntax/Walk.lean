import Mathlib.Data.List.Perm.Basic
import SecScan.Syntax.Height

/-!
Walks of a tree reach all of it. A node is higher than its children (`height_lt_of_mem_children`), so
as many levels as the root is high hold exactly the nodes below it (`mem_levelsBy`). Up to order, a
listing holds a node and the listings of its parts (`listed_perm`). If the children of every node are
told apart in two sorts, the whole tree is what is reached through children of the first sort only,
and the trees below the children of the second sort that are met on the way (`listed_split`).
-/

namespace SecScan.Syntax

open List

variable {next : Node → List Node} {level : List Node}
variable (fuel : Nat) {k n : Node}

namespace Node

theorem height_pos (n : Node) : 0 < n.height := by
  rw [height]
  exact Nat.succ_pos _

theorem height_lt_of_mem_children {m : Node} (h : m ∈ n.children) : m.height < n.height := by
  rw [height.eq_def n, Nat.lt_succ_iff]
  exact List.le_max?_getD_of_mem (mem_map.mpr ⟨⟨m, h⟩, mem_attach _ _, rfl⟩)

/-! ## Levels -/

/-- What can be reached from a node, `next` giving the parts of a node that count. -/
inductive Below (next : Node → List Node) (n : Node) : Node → Prop where
  | self : Below next n n
  | child {m k : Node} : Below next n m → k ∈ next m → Below next n k

theorem Below.head {m : Node} (hm : m ∈ next n) (h : Below next m k) : Below next n k := by
  induction h with
  | self => exact .child .self hm
  | child _ hk ih => exact ih.child hk

theorem below_iff : Below next n k ↔ k = n ∨ ∃ m ∈ next n, Below next m k := by
  constructor
  · intro h
    induction h with
    | self => exact .inl rfl
    | child _ hk ih =>
      rcases ih with rfl | ⟨m, hm, h⟩
      · exact .inr ⟨_, hk, .self⟩
      · exact .inr ⟨m, hm, h.child hk⟩
  · rintro (rfl | ⟨m, hm, h⟩)
    · exact .self
    · exact h.head hm

/-- The nodes of some levels, `next` giving the parts of a node that count. -/
def levelsBy (next : Node → List Node) : Nat → List Node → List Node
  | 0, _ => []
  | n + 1, level => level ++ levelsBy next n (level.flatMap next)

theorem height_flatMap_le (hnext : ∀ n, next n ⊆ n.children) {fuel : Nat} (hfuel : ∀ n ∈ level, n.height ≤ fuel + 1) :
    ∀ n ∈ level.flatMap next, n.height ≤ fuel := by
  intro m hm
  obtain ⟨n, hn, hm⟩ := mem_flatMap.mp hm
  have := hfuel n hn
  have := height_lt_of_mem_children (hnext n hm)
  omega

/-- As many levels as the highest node has hold all that can be reached. -/
theorem mem_levelsBy (hnext : ∀ n, next n ⊆ n.children) {fuel : Nat} (hfuel : ∀ n ∈ level, n.height ≤ fuel) :
    k ∈ levelsBy next fuel level ↔ ∃ n ∈ level, Below next n k := by
  induction fuel generalizing level with
  | zero =>
    constructor
    · intro h
      simp [levelsBy] at h
    · rintro ⟨n, hn, -⟩
      have := hfuel n hn
      have := n.height_pos
      omega
  | succ fuel ih =>
    simp only [levelsBy, mem_append, ih (height_flatMap_le hnext hfuel), mem_flatMap]
    constructor
    · rintro (hk | ⟨m, ⟨n, hn, hm⟩, h⟩)
      · exact ⟨k, hk, .self⟩
      · exact ⟨n, hn, h.head hm⟩
    · rintro ⟨n, hn, h⟩
      rcases below_iff.mp h with rfl | ⟨m, hm, h⟩
      · exact .inl hn
      · exact .inr ⟨m, ⟨n, hn, hm⟩, h⟩

/-! ## Listings up to order -/

section listed

open scoped List

variable {next rest : Node → List Node}

theorem levels_eq (ns : List Node) : levels fuel ns = levelsBy children fuel ns := by
  induction fuel generalizing ns with
  | zero => rfl
  | succ fuel ih => simp [levels, levelsBy, ih]

theorem levelsBy_nil : levelsBy next fuel [] = [] := by
  induction fuel with
  | zero => rfl
  | succ fuel ih => simp [levelsBy, ih]

theorem levelsBy_append (xs ys : List Node) :
    (levelsBy next fuel (xs ++ ys)).Perm (levelsBy next fuel xs ++ levelsBy next fuel ys) := by
  induction fuel generalizing xs ys with
  | zero => exact .nil
  | succ fuel ih =>
    simp only [levelsBy, flatMap_append, append_assoc]
    refine List.Perm.append_left xs ?_
    exact ((ih _ _).append_left ys).trans (perm_append_comm_assoc _ _ _)

theorem levelsBy_flatMap (xs : List Node) :
    (levelsBy next fuel xs).Perm (xs.flatMap fun x => levelsBy next fuel [x]) := by
  induction xs with
  | nil => rw [levelsBy_nil, flatMap_nil]
  | cons x xs ih => exact (levelsBy_append fuel [x] xs).trans (ih.append_left _)

/-- More levels than the highest node has are empty. -/
theorem levelsBy_of_le (hnext : ∀ n, next n ⊆ n.children) {fuel more : Nat}
    (hfuel : ∀ n ∈ level, n.height ≤ fuel) (hmore : fuel ≤ more) :
    levelsBy next more level = levelsBy next fuel level := by
  induction fuel generalizing more level with
  | zero =>
    have hempty : level = [] := by
      refine eq_nil_iff_forall_not_mem.mpr fun n hn => ?_
      have := hfuel n hn
      have := n.height_pos
      omega
    rw [hempty, levelsBy_nil, levelsBy_nil]
  | succ fuel ih =>
    obtain ⟨more, rfl⟩ : ∃ k, more = k + 1 := ⟨more - 1, by omega⟩
    rw [levelsBy, levelsBy, ih (height_flatMap_le hnext hfuel) (by omega)]

/-- All that can be reached from a node, level by level. -/
def listed (next : Node → List Node) (n : Node) : List Node := levelsBy next n.height [n]

theorem walk_eq (n : Node) : n.walk = listed children n := levels_eq _ _

theorem mem_listed (hnext : ∀ n, next n ⊆ n.children) : k ∈ listed next n ↔ Below next n k := by
  rw [listed, mem_levelsBy hnext (by simp)]
  simp

theorem listed_perm (hnext : ∀ n, next n ⊆ n.children) (n : Node) :
    (listed next n).Perm (n :: (next n).flatMap (listed next)) := by
  obtain ⟨k, hk⟩ : ∃ k, n.height = k + 1 := ⟨n.height - 1, by have := n.height_pos; omega⟩
  have hparts : (next n).flatMap (fun m => levelsBy next k [m]) = (next n).flatMap (listed next) := by
    refine flatMap_congr fun m hm => levelsBy_of_le hnext (by simp) ?_
    have := height_lt_of_mem_children (hnext n hm)
    omega
  rw [listed, hk, levelsBy, flatMap_singleton, ← hparts]
  exact (levelsBy_flatMap k (next n)).cons n

/-- A tree is what is reached through children of one sort, and the trees below the others. -/
theorem listed_split (hparts : ∀ n, n.children = next n ++ rest n) (n : Node) : (listed children n).Perm
      (listed next n ++ (listed next n).flatMap fun k => (rest k).flatMap (listed children)) := by
  have hnext : ∀ n, next n ⊆ n.children := fun n => by
    rw [hparts n]
    exact subset_append_left _ _
  let apart (n : Node) := (listed next n).flatMap fun k => (rest k).flatMap (listed children)
  induction hh : n.height using Nat.strongRecOn generalizing n with
  | ind h ih =>
    have hbelow : ((next n).flatMap (listed children)).Perm
        ((next n).flatMap (listed next) ++ (next n).flatMap apart) := by
      refine List.Perm.trans (List.Perm.flatMap_left _ fun m hm => ?_)
        (flatMap_append_perm (next n) (listed next) apart).symm
      exact ih m.height (hh ▸ height_lt_of_mem_children (hnext n hm)) m rfl
    have hapart : (apart n).Perm ((rest n).flatMap (listed children) ++ (next n).flatMap apart) := by
      refine ((listed_perm hnext n).flatMap_right _).trans ?_
      rw [flatMap_cons, flatMap_assoc]
    calc listed children n
      _ ~ n :: ((next n).flatMap (listed children) ++ (rest n).flatMap (listed children)) := by
        have hlist := listed_perm (fun _ => Subset.refl _) n
        rwa [hparts n, flatMap_append] at hlist
      _ ~ n :: (((next n).flatMap (listed next) ++ (next n).flatMap apart) ++
            (rest n).flatMap (listed children)) := (hbelow.append_right _).cons n
      _ ~ (n :: (next n).flatMap (listed next)) ++
            ((rest n).flatMap (listed children) ++ (next n).flatMap apart) := by
        rw [append_assoc, cons_append]
        exact (perm_append_comm.append_left _).cons n
      _ ~ listed next n ++ apart n := (listed_perm hnext n).symm.append hapart.symm

end listed

end Node

end SecScan.Syntax
