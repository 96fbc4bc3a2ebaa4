import SecScan.Proofs.Json.ReadBack

/-!
Whatever is read from a text is its own image: written again and read again it is the same
(`plain_parse`). What consists of texts, doubles and short whole numbers can be written (`Writable`), and a
document is both (`kept_of_isDocument`).
-/

namespace SecScan.Json

open List Value

variable {l : List Value}
variable {v : Value} {fields : Fields}

/-- A value that its text is read as, with a bounded number of levels. -/
structure Plain (levels : Nat) (v : Value) : Prop where
  image_eq : image v = v
  depth_le : depth v ≤ levels

theorem imageAll_eq_map (l : List Value) : imageAll l = l.map image := by
  induction l with
  | nil => rfl
  | cons v l ih => rw [imageAll, ih, map_cons]

theorem depthAll_le {n : Nat} : depthAll l ≤ n ↔ ∀ v ∈ l, depth v ≤ n := by
  induction l with
  | nil => simp [depthAll]
  | cons v l ih => simp [depthAll, ih]

theorem depthFields_le {es : Entries} {n : Nat} : depthFields es ≤ n ↔ ∀ e ∈ es, depth e.2 ≤ n := by
  induction es with
  | nil => simp [depthFields]
  | cons e es ih =>
    obtain ⟨k, v⟩ := e
    simp [depthFields, ih]

theorem Plain.list {levels : Nat} (h : ∀ v ∈ l, Plain levels v) : Plain (levels + 1) (.list l) where
  image_eq := by rw [image, imageAll_eq_map, map_congr_left fun v hv => (h v hv).image_eq, map_id']
  depth_le := Nat.succ_le_succ (depthAll_le.mpr fun v hv => (h v hv).depth_le)

/-- Values under different texts stay there. -/
theorem imageFields_texts (fields acc : Fields) (hkeys : ((acc ++ fields).map (·.1)).Nodup) :
    imageFields acc (fields.map fun (k, v) => (.text k, v)) = acc ++ fields.map fun (k, v) => (k, image v) := by
  induction fields generalizing acc with
  | nil => simp [imageFields]
  | cons e fields ih =>
    obtain ⟨k, v⟩ := e
    have hnew : k ∉ acc.map (·.1) := by
      intro hk
      simp only [map_append, map_cons, nodup_append, mem_cons, ne_eq] at hkeys
      exact hkeys.2.2 k hk k (.inl rfl) rfl
    simp only [map_cons, imageFields, keyText, putField_new hnew]
    rw [ih]
    · simp
    · simpa using hkeys

theorem image_obj (hkeys : (fields.map (·.1)).Nodup) :
    image (.obj fields) = .obj (fields.map fun (k, v) => (k, image v)) := by
  rw [obj, image, imageFields_texts fields [] hkeys]
  rfl

theorem Plain.obj {levels : Nat} {fields : Fields} (hkeys : (fields.map (·.1)).Nodup)
    (h : ∀ e ∈ fields, Plain levels e.2) : Plain (levels + 1) (.obj fields) where
  image_eq := by
    rw [image_obj hkeys]
    congr 1
    refine (map_congr_left fun e he => ?_).trans (map_id' _)
    obtain ⟨k, v⟩ := e
    have hv : image v = v := (h _ he).image_eq
    simp [hv]
  depth_le := by
    refine Nat.succ_le_succ (depthFields_le.mpr ?_)
    intro e he
    obtain ⟨f, hf, rfl⟩ := mem_map.mp he
    exact (h f hf).depth_le

theorem plain_readRemainder (negative : Bool) (whole s : List Char) (levels : Nat) :
    Plain levels (readRemainder negative whole s).1 := by
  unfold readRemainder
  cases readFraction s with
  | mk fraction s' =>
    simp only []
    cases readExponent s' with
    | some x => exact ⟨rfl, Nat.zero_le _⟩
    | none =>
      simp only []
      split <;> exact ⟨rfl, Nat.zero_le _⟩

theorem plain_readAtom {s rest : List Char} (h : readAtom s = some (v, rest)) (levels : Nat) : Plain levels v := by
  have hor : ∀ {a b : Option (Value × List Char)}, (a <|> b) = some (v, rest) →
      a = some (v, rest) ∨ b = some (v, rest) := by
    intro a b hab
    cases a with
    | none => exact .inr hab
    | some x => exact .inl hab
  have hword : ∀ {w : String} {x : Value}, (word? w s).map (x, ·) = some (v, rest) → image x = x → depth x = 0 →
      Plain levels v := by
    intro w x hx himage hdepth
    obtain ⟨r, -, hr⟩ := Option.map_eq_some_iff.mp hx
    obtain ⟨rfl, -⟩ := Prod.mk.inj hr
    exact ⟨himage, by omega⟩
  unfold readAtom at h
  rcases hor h with h | h
  · exact hword h rfl rfl
  rcases hor h with h | h
  · exact hword h rfl rfl
  rcases hor h with h | h
  · exact hword h rfl rfl
  rcases hor h with h | h
  · exact hword h rfl rfl
  rcases hor h with h | h
  · exact hword h rfl rfl
  rcases hor h with h | h
  · exact hword h rfl rfl
  simp only [readNumber] at h
  split at h
  · cases h
  · have hv := plain_readRemainder (cutSign s).1 (wholePart (cutSign s).2)
      ((cutSign s).2.drop (wholePart (cutSign s).2).length) levels
    rwa [Option.some.inj h] at hv

theorem plain_readShortAtom {s rest : List Char} (h : readShortAtom s = .ok (v, rest)) (levels : Nat) :
    Plain levels v := by
  have hatom : orMalformed (readAtom s) = .ok (v, rest) := by
    unfold readShortAtom at h
    split at h
    · split at h
      · cases h
      · exact h
    · exact h
  cases hread : readAtom s with
  | none => simp [hread, orMalformed] at hatom
  | some x =>
    simp only [hread, orMalformed, Except.ok.injEq] at hatom
    exact plain_readAtom (hatom ▸ hread) levels

mutual

theorem plain_readValue (fuel : Nat) {levels : Nat} {s rest : List Char} {v : Value}
    (h : readValue fuel levels s = .ok (v, rest)) : Plain levels v := by
  cases fuel with
  | zero => simp [readValue] at h
  | succ fuel =>
    cases s with
    | nil => simp [readValue] at h
    | cons c s =>
      unfold readValue at h
      simp only [] at h
      split at h
      · obtain ⟨x, -, hx⟩ := map_eq_ok.mp h
        obtain ⟨rfl, -⟩ := Prod.mk.inj hx
        exact ⟨rfl, Nat.zero_le _⟩
      split at h
      · cases levels with
        | zero => cases h
        | succ levels =>
          simp only [] at h
          split at h
          · cases h
            exact .list (by simp)
          · exact plain_readItems fuel (by simp) h
      split at h
      · cases levels with
        | zero => cases h
        | succ levels =>
          simp only [] at h
          split at h
          · cases h
            exact @Plain.obj _ [] (by simp) (by simp)
          · exact plain_readMembers fuel (by simp) (by simp) h
      · exact plain_readShortAtom h levels

theorem plain_readItems (fuel : Nat) {levels : Nat} {acc : List Value} {s rest : List Char} {v : Value}
    (hacc : ∀ x ∈ acc, Plain levels x) (h : readItems fuel levels acc s = .ok (v, rest)) :
    Plain (levels + 1) v := by
  cases fuel with
  | zero => simp [readItems] at h
  | succ fuel =>
    rw [readItems_succ] at h
    obtain ⟨⟨x, s'⟩, hx, h⟩ := bind_eq_ok.mp h
    have hacc' : ∀ y ∈ x :: acc, Plain levels y := by
      intro y hy
      rcases mem_cons.mp hy with rfl | hy
      · exact plain_readValue fuel hx
      · exact hacc y hy
    simp only [afterItem] at h
    obtain ⟨sep, -, h⟩ := bind_eq_ok.mp h
    cases sep with
    | more r => exact plain_readItems fuel hacc' h
    | done r =>
      cases h
      exact .list fun y hy => hacc' y (mem_reverse.mp hy)

theorem plain_readMembers (fuel : Nat) {levels : Nat} {fields : Fields} {s rest : List Char}
    {v : Value} (hkeys : (fields.map (·.1)).Nodup) (hfields : ∀ e ∈ fields, Plain levels e.2)
    (h : readMembers fuel levels fields s = .ok (v, rest)) : Plain (levels + 1) v := by
  cases fuel with
  | zero => simp [readMembers] at h
  | succ fuel =>
    rw [readMembers_succ] at h
    obtain ⟨⟨k, s'⟩, -, h⟩ := bind_eq_ok.mp h
    obtain ⟨⟨x, s''⟩, hx, h⟩ := bind_eq_ok.mp h
    have hkeys' := nodup_putField (k := k) (x := x) hkeys
    have hfields' : ∀ e ∈ putField k x fields, Plain levels e.2 := by
      intro e he
      rcases mem_putField he with rfl | he
      · exact plain_readValue fuel hx
      · exact hfields e he
    simp only [afterMember] at h
    obtain ⟨sep, -, h⟩ := bind_eq_ok.mp h
    cases sep with
    | more r => exact plain_readMembers fuel hkeys' hfields' h
    | done r =>
      cases h
      exact .obj hkeys' hfields'

end

theorem plain_parse {s : String} (h : parse s = .ok v) : Plain levelLimit v := by
  unfold parse at h
  obtain ⟨⟨x, rest⟩, hx, h⟩ := bind_eq_ok.mp h
  simp only [] at h
  split at h
  · cases h
    exact plain_readValue _ hx
  · cases h

/-! ## What can be written -/

/-- Values that have a JSON text in every style. -/
def Writable (v : Value) : Prop := ∀ st level acc, ∃ s, writeOnto st level acc v = .ok s

theorem writable_null : Writable .null := fun _ _ _ => ⟨_, by rw [writeOnto]⟩

theorem writable_text (s : String) : Writable (.text s) := fun _ _ _ => ⟨_, by rw [writeOnto]⟩

theorem writable_float (x : Float) : Writable (.float x) := fun _ _ _ => ⟨_, by rw [writeOnto]⟩

theorem writable_int {n : Int} (h : (toString n.natAbs).length ≤ digitLimit) : Writable (.int n) := by
  intro st level acc
  refine ⟨acc ++ toString n, ?_⟩
  rw [writeOnto, intText, if_neg (Nat.not_lt.mpr h)]
  rfl

theorem writable_obj (h : ∀ f ∈ fields, Writable f.2) : Writable (.obj fields) := by
  have hentries : ∀ (fields : Fields), (∀ f ∈ fields, Writable f.2) → ∀ st level first acc,
      ∃ s, writeEntries st level first acc (fields.map fun (k, v) => (text k, v)) = .ok s := by
    intro fields
    induction fields with
    | nil => exact fun _ st level first acc => ⟨acc, by rw [map_nil, writeEntries]⟩
    | cons f fields ih =>
      intro h st level first acc
      obtain ⟨s, hs⟩ := h f (by simp) st level
        (quoteOnto st.ascii (st.newline level (if first then acc else acc ++ st.between)) f.1 ++ st.keySeparator)
      obtain ⟨u, hu⟩ := ih (fun f hf => h f (by simp [hf])) st level false s
      refine ⟨u, ?_⟩
      rw [map_cons, writeEntries]
      simp [keyText, bind, Except.bind, hs, hu]
  intro st level acc
  cases fields with
  | nil => exact ⟨_, by rw [obj, map_nil, writeOnto]⟩
  | cons f fields =>
    obtain ⟨s, hs⟩ := hentries (f :: fields) h st (level + 1) true (acc.push '\x7b')
    refine ⟨(st.newline level s).push '\x7d', ?_⟩
    rw [map_cons] at hs
    rw [obj, map_cons, writeOnto, hs]
    rfl

theorem writable_list (h : ∀ v ∈ l, Writable v) : Writable (.list l) := by
  have hrest : ∀ (l : List Value), (∀ v ∈ l, Writable v) → ∀ st level acc, ∃ s, writeRest st level acc l = .ok s := by
    intro l
    induction l with
    | nil => exact fun _ st level acc => ⟨acc, by rw [writeRest]⟩
    | cons v l ih =>
      intro h st level acc
      obtain ⟨s, hs⟩ := h v (by simp) st level (st.newline level (acc ++ st.between))
      obtain ⟨u, hu⟩ := ih (fun x hx => h x (by simp [hx])) st level s
      exact ⟨u, by rw [writeRest, hs]; exact hu⟩
  intro st level acc
  cases l with
  | nil => exact ⟨_, by rw [writeOnto, writeItems]⟩
  | cons v l =>
    obtain ⟨s, hs⟩ := h v (by simp) st (level + 1) (st.newline (level + 1) (acc.push '['))
    obtain ⟨u, hu⟩ := hrest l (fun x hx => h x (by simp [hx])) st (level + 1) s
    refine ⟨(st.newline level u).push ']', ?_⟩
    rw [writeOnto, writeItems, hs]
    simp only [bind, Except.bind, hu]
    rfl

theorem Writable.render (h : Writable v) (st : Style) : ∃ s, Json.render st v = .ok s := by
  obtain ⟨s, hs⟩ := h st 0 ""
  exact ⟨s, by rw [Json.render, write, hs, Except.mapError]⟩

/-! ## Documents -/

mutual

/-- Whether a value is a document: it consists of what JSON has a form for, texts are its keys, each of them once,
and its whole numbers have no more digits than are written. -/
def isDocument : Value → Bool
  | .null | .bool _ | .float _ | .text _ => true
  | .int n => (toString n.natAbs).length ≤ digitLimit
  | .list l => areDocuments l
  | .map es => areFields es
  | _ => false

def areDocuments : List Value → Bool
  | [] => true
  | v :: l => isDocument v && areDocuments l

def areFields : Entries → Bool
  | [] => true
  | (.text k, v) :: es => !es.any (isKey k ·.1) && isDocument v && areFields es
  | _ :: _ => false

end

/-- A value that has a text, and is read back from it as it is. -/
structure Kept (v : Value) : Prop where
  image_eq : image v = v
  writable : Writable v

mutual

theorem kept_of_isDocument (v : Value) (h : isDocument v = true) : Kept v := by
  cases v with
  | null => exact ⟨rfl, writable_null⟩
  | bool b => exact ⟨rfl, fun _ _ _ => ⟨_, by rw [writeOnto]⟩⟩
  | int n => exact ⟨rfl, writable_int (by simpa [isDocument] using h)⟩
  | float x => exact ⟨rfl, writable_float x⟩
  | text s => exact ⟨rfl, writable_text s⟩
  | list l =>
    have hl := kept_of_areDocuments l (by simpa [isDocument] using h)
    refine ⟨?_, writable_list fun v hv => (hl v hv).writable⟩
    rw [image, imageAll_eq_map, map_congr_left fun v hv => (hl v hv).image_eq, map_id']
  | map es =>
    obtain ⟨fields, rfl, hkeys, hfields⟩ := kept_of_areFields es (by simpa [isDocument] using h)
    refine ⟨?_, writable_obj fun f hf => (hfields f hf).writable⟩
    refine (image_obj hkeys).trans (congrArg obj ?_)
    refine (map_congr_left fun f hf => ?_).trans (map_id' _)
    exact congrArg (Prod.mk f.1) (hfields f hf).image_eq
  | _ => simp [isDocument] at h

theorem kept_of_areDocuments (l : List Value) (h : areDocuments l = true) : ∀ v ∈ l, Kept v := by
  cases l with
  | nil => simp
  | cons v l =>
    simp only [areDocuments, Bool.and_eq_true] at h
    exact forall_mem_cons.mpr ⟨kept_of_isDocument v h.1, kept_of_areDocuments l h.2⟩

theorem kept_of_areFields (es : Entries) (h : areFields es = true) : ∃ fields : Fields,
    es = fields.map (fun (k, v) => (.text k, v)) ∧ (fields.map (·.1)).Nodup ∧ ∀ f ∈ fields, Kept f.2 := by
  cases es with
  | nil => exact ⟨[], rfl, by simp, by simp⟩
  | cons e es =>
    obtain ⟨k, v⟩ := e
    cases k with
    | text k =>
      simp only [areFields, Bool.and_eq_true, Bool.not_eq_true'] at h
      obtain ⟨⟨hnew, hv⟩, hes⟩ := h
      obtain ⟨fields, rfl, hkeys, hfields⟩ := kept_of_areFields es hes
      refine ⟨(k, v) :: fields, rfl, ?_, ?_⟩
      · refine nodup_cons.mpr ⟨?_, hkeys⟩
        intro hk
        obtain ⟨f, hf, rfl⟩ := mem_map.mp hk
        simp only [any_map, any_eq_false, Function.comp_apply, isKey, beq_iff_eq] at hnew
        exact hnew f hf rfl
      · exact forall_mem_cons.mpr ⟨kept_of_isDocument v hv, hfields⟩
    | _ => simp [areFields] at h

end

end SecScan.Json
