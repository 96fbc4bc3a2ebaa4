import SecScan.Api.Spec
import SecScan.Proofs.Keyed

/-!
When references between schemas can be replaced. Replacing those of a schema takes the schemas of its properties and
the ones it refers to, each some calls deeper (`Spec.Calls`). It comes to an end just if nothing is deeper than
calls may stand in each other, and no reference is left then (`Spec.settles`, `schema_expanded_iff`). A schema that
leads back to itself is deeper than any bound (`Spec.Calls.cycle`).
-/

namespace SecScan.Api

open Value

variable {s : Spec} {v w : Value} {es ps : Entries} {n m : Nat}

/-- An object with something said of its reference, and so are its properties, which stand in a table. -/
inductive Shaped (P : Option Value → Prop) : Value → Prop where
  | object {es : Entries} (ref : P (lookup es "$ref")) (table : ∀ t ∈ lookup es "properties", t.isMap = true)
      (properties : ∀ ps, lookup es "properties" = some (.map ps) → ∀ p ∈ ps, Shaped P p.2) : Shaped P (.map es)

abbrev IsSchema : Value → Prop := Shaped fun ref => ∀ r ∈ ref, r.isText = true

/-- There is no reference on top, nor on top of a property. -/
abbrev RefFree : Value → Prop := Shaped (· = none)

namespace Spec

def Proper (s : Spec) : Prop := ∃ es, s.schemas = .map es ∧ ∀ e ∈ es, IsSchema e.2

/-- To replace the references of a schema those of another are replaced, so many calls deeper. -/
inductive Calls (s : Spec) : Nat → Value → Value → Prop where
  | here (v : Value) : Calls s 0 v v
  | property {es ps : Entries} {p : Value × Value} {n : Nat} {w : Value} (ref : lookup es "$ref" = none)
      (table : lookup es "properties" = some (.map ps)) (mem : p ∈ ps) (rest : Calls s n p.2 w) :
      Calls s (n + 1) (.map es) w
  | reference {es : Entries} {r v : Value} {n : Nat} {w : Value} (ref : lookup es "$ref" = some r)
      (target : s.referred r = .ok v) (rest : Calls s n v w) : Calls s (n + 2) (.map es) w

theorem Calls.trans {u : Value} (h : s.Calls n u v) (h' : s.Calls m v w) : s.Calls (m + n) u w := by
  induction h with
  | here => exact h'
  | property ref table mem _ ih => exact .property ref table mem (ih h')
  | reference ref target _ ih => exact .reference ref target (ih h')

theorem Calls.cycle (h : s.Calls (n + 1) v v) (k : Nat) : ∃ m, k ≤ m ∧ s.Calls m v v := by
  induction k with
  | zero => exact ⟨n + 1, Nat.zero_le _, h⟩
  | succ k ih =>
    obtain ⟨m, hm, hway⟩ := ih
    exact ⟨n + 1 + m, by omega, hway.trans h⟩

/-! ## Replacing references -/

/-- Either something is too deep, or all references are replaced. -/
def Settles (s : Spec) (n : Nat) (v : Value) : Prop :=
  (s.expandIn n v = .error .endless ∧ ∃ k w, n ≤ k ∧ s.Calls k v w) ∨
    ∃ r, s.expandIn n v = .ok r ∧ RefFree r ∧ ∀ k w, s.Calls k v w → k < n

theorem isSchema_referred (hs : s.Proper) {ref : Value} (h : ref.isText = true) :
    ∃ v, s.referred ref = .ok v ∧ IsSchema v := by
  obtain ⟨es, hes, hschemas⟩ := hs
  have hempty : IsSchema (.obj []) := by refine .object ?_ ?_ ?_ <;> simp [lookup]
  cases ref with
  | text ref =>
    have heq : s.referred (.text ref) = .ok (((schemaName? ref).bind (lookup es)).getD (.obj [])) := by
      simp [referred, hes]
    refine ⟨_, heq, ?_⟩
    cases hfound : (schemaName? ref).bind (lookup es) with
    | none => exact hempty
    | some v =>
      obtain ⟨name, -, hv⟩ := Option.bind_eq_some_iff.mp hfound
      obtain ⟨e, he, rfl⟩ := Option.map_eq_some_iff.mp hv
      exact hschemas e (List.mem_of_find?_eq_some he)
  | _ => cases h

/-- The properties of a schema without a reference, given what becomes of each. -/
theorem expandIn_properties (hfree : lookup es "$ref" = none) (htable : lookup es "properties" = some (.map ps))
    (h : ∀ p ∈ ps, s.Settles n p.2) : s.Settles (n + 1) (.map es) := by
  have hput (k : String) (t : Value) : lookup (putText "properties" t es) k =
      if k = "properties" then some t else lookup es k := get?_put (v := .map es) rfl "properties" k t
  unfold Settles
  rw [expandIn.eq_4 s es n ps hfree htable]
  cases hall : ps.mapM fun p => (p.1, ·) <$> s.expandIn n p.2 with
  | error e =>
    obtain ⟨p, hp, he⟩ := error_of_mapM hall
    obtain ⟨hend, k, w, hk, hway⟩ | ⟨r, hr, -⟩ := h p hp
    · rw [hend] at he
      cases he
      exact .inl ⟨rfl, k + 1, w, by omega, .property hfree htable hp hway⟩
    · rw [hr] at he
      cases he
  | ok expanded =>
    refine .inr ⟨_, rfl, .object (by rw [hput]; simpa using hfree) ?_ ?_, fun k w hway => ?_⟩
    · intro t ht
      rw [hput, if_pos rfl] at ht
      cases ht
      rfl
    · intro qs hqs q hq
      rw [hput, if_pos rfl] at hqs
      cases hqs
      obtain ⟨p, hp, hf⟩ := exists_of_mem_mapM hall hq
      obtain ⟨hend, -⟩ | ⟨r, hr, hfree, -⟩ := h p hp
      · rw [hend] at hf
        cases hf
      · rw [hr] at hf
        cases hf
        exact hfree
    · cases hway with
      | here => exact Nat.succ_pos n
      | reference ref => simp [hfree] at ref
      | @property _ ps' p k _ _ table mem rest =>
        obtain rfl : ps = ps' := by simpa using htable.symm.trans table
        obtain ⟨q, -, hf⟩ := exists_of_mapM hall mem
        obtain ⟨hend, -⟩ | ⟨r, -, -, hbound⟩ := h p mem
        · rw [hend] at hf
          cases hf
        · exact Nat.succ_lt_succ (hbound k w rest)

theorem settles (hs : s.Proper) (n : Nat) (hv : IsSchema v) : s.Settles n v := by
  induction n using Nat.strongRecOn generalizing v with
  | ind n ih =>
  cases n with
  | zero => exact .inl ⟨rfl, 0, v, Nat.le_refl 0, .here v⟩
  | succ n =>
  obtain @⟨es, href, htable, hproperties⟩ := hv
  cases hr : lookup es "$ref" with
  | some ref =>
    obtain ⟨v, htarget, hv⟩ := isSchema_referred hs (href ref hr)
    cases n with
    | zero =>
      exact .inl ⟨expandIn.eq_2 s es ref hr, 2, v, by omega, .reference hr htarget (.here v)⟩
    | succ n =>
      have heq : s.expandIn (n + 2) (.map es) = s.expandIn n v := by
        rw [expandIn.eq_3 s es ref n hr, htarget]
        rfl
      unfold Settles
      rw [heq]
      refine (ih n (by omega) hv).imp ?_ ?_
      · rintro ⟨hend, k, w, hk, hway⟩
        exact ⟨hend, k + 2, w, by omega, .reference hr htarget hway⟩
      · rintro ⟨r, hok, hfree, hbound⟩
        refine ⟨r, hok, hfree, fun k w hway => ?_⟩
        cases hway with
        | here => omega
        | property ref => simp [hr] at ref
        | @reference _ r' v' k _ hr' target rest =>
          obtain rfl : ref = r' := by simpa using hr.symm.trans hr'
          obtain rfl : v = v' := by simpa using htarget.symm.trans target
          exact Nat.add_lt_add_right (hbound k w rest) 2
  | none =>
    cases ht : lookup es "properties" with
    | some t =>
      cases t with
      | map ps => exact expandIn_properties hr ht fun p hp => ih n (by omega) (hproperties ps ht p hp)
      | _ => cases htable _ ht
    | none =>
      refine .inr ⟨.map es, by simp [expandIn, hr, ht], .object hr (by simp [ht]) (by simp [ht]), fun k w hway => ?_⟩
      cases hway with
      | here => exact Nat.succ_pos n
      | property _ table => simp [ht] at table
      | reference ref => simp [hr] at ref

theorem expand_circular (hs : s.Proper) (hv : IsSchema v) (hway : s.Calls n v w) (hcycle : s.Calls (m + 1) w w) :
    s.expand v = .error .endless := by
  obtain ⟨hend, -⟩ | ⟨r, -, -, hbound⟩ := settles hs stackDepth hv
  · exact hend
  · obtain ⟨k, hk, hlong⟩ := hcycle.cycle stackDepth
    have hless := hbound _ w (hway.trans hlong)
    omega

end Spec

/-- The references of a schema are replaced just if nothing is deeper than calls may stand in each other. Then none is
left, on top or on top of a property. They are not if the way down comes to a schema that leads back to itself. -/
theorem schema_expanded_iff (hs : s.Proper) (hv : IsSchema v) :
    ((∃ r, s.expand v = .ok r) ↔ ∀ n w, s.Calls n v w → n < Spec.stackDepth) ∧
      (∀ r, s.expand v = .ok r → RefFree r) ∧
      ∀ n m w, s.Calls n v w → s.Calls (m + 1) w w → s.expand v = .error .endless := by
  refine ⟨?_, fun r hr => ?_, fun _ _ _ => Spec.expand_circular hs hv⟩
  all_goals obtain ⟨hend, k, w, hk, hway⟩ | ⟨r', hr', hfree, hbound⟩ := Spec.settles hs Spec.stackDepth hv
  · refine iff_of_false ?_ fun h => Nat.not_lt.mpr hk (h k w hway)
    rintro ⟨r, hr⟩
    cases hr.symm.trans hend
  · exact iff_of_true ⟨r', hr'⟩ hbound
  · cases hr.symm.trans hend
  · cases hr.symm.trans hr'
    exact hfree

def userSchema : Value := .obj [("properties", .obj [("id", .obj [("type", .text "integer")])])]

def toUser : Value := .obj [("$ref", .text "#/components/schemas/User")]

def toNode : Value := .obj [("$ref", .text "#/components/schemas/Node")]

def nodeSchema : Value := .obj [("properties", .obj [("owner", toUser), ("next", toNode)])]

/-- Nodes with an owner form lists: each refers to a node. -/
def nodes : Spec := { version := "3.0.0", schemas := .obj [("User", userSchema), ("Node", nodeSchema)] }

theorem isSchema_reference (ref : String) : IsSchema (.obj [("$ref", .text ref)]) := by
  refine .object ?_ ?_ ?_ <;> simp [lookup, isKey, isText]

theorem proper_nodes : nodes.Proper := by
  refine ⟨_, rfl, ?_⟩
  have htype : IsSchema (.obj [("type", .text "integer")]) := by refine .object ?_ ?_ ?_ <;> simp [lookup, isKey]
  simp only [List.map_cons, List.map_nil, List.forall_mem_cons, List.not_mem_nil, false_imp_iff, implies_true, and_true]
  constructor
  · refine .object ?_ ?_ ?_ <;> simp [lookup, isKey, obj, isMap]
    exact htype
  · refine .object ?_ ?_ ?_ <;> simp [lookup, isKey, obj, isMap]
    rintro _ _ (⟨-, rfl⟩ | ⟨-, rfl⟩) <;> exact isSchema_reference _

theorem user_expanded : nodes.expand toUser = .ok userSchema ∧ RefFree userSchema := by
  have heq : nodes.expand toUser = .ok userSchema := rfl
  exact ⟨heq, (schema_expanded_iff proper_nodes (isSchema_reference _)).2.1 _ heq⟩

theorem list_not_expanded : nodes.Proper ∧ IsSchema toNode ∧ nodes.expand toNode = .error .endless := by
  have href : nodes.referred (.text "#/components/schemas/Node") = .ok nodeSchema := rfl
  have hcycle : nodes.Calls 3 nodeSchema nodeSchema :=
    .property (p := (.text "next", toNode)) rfl rfl (by simp) (.reference rfl href (.here _))
  exact ⟨proper_nodes, isSchema_reference _, Spec.expand_circular proper_nodes (isSchema_reference _)
    (.reference rfl href (.here _)) hcycle⟩

end SecScan.Api
