import SecScan.Proofs.Store.Records

/-!
Manifests that were written and read. Whatever manifest is found (`sound_load`), with a further entry it
is read back as it was written (`load_saved`).
-/

namespace SecScan

open List Json Value

variable {fields : Fields} {levels : Nat} {e : Entry} {w' : Workspace}
variable {m : Manifest} {w : Workspace} {root : String} {v : Value}

namespace Json

theorem obj_inj {a b : Fields} (h : obj a = .obj b) : a = b := by
  apply map_injective_iff.mpr _ (map.inj h)
  rintro ⟨k, v⟩ ⟨k', v'⟩ heq
  simpa using heq

theorem nodup_imageFields (h : (fields.map (·.1)).Nodup) (es : Entries) :
    ((imageFields fields es).map (·.1)).Nodup := by
  induction es generalizing fields with
  | nil => exact h
  | cons e es ih =>
    obtain ⟨k, v⟩ := e
    rw [imageFields]
    apply ih
    split
    · exact nodup_putField h
    · exact h

/-- A map that is its own image has texts as keys, each once. -/
theorem Plain.exists_fields {es : Entries} (h : Plain (levels + 1) (.map es)) :
    ∃ fields, map es = .obj fields ∧ (fields.map (·.1)).Nodup ∧ ∀ f ∈ fields, Plain levels f.2 := by
  have heq : map es = .obj (imageFields [] es) := by rw [← h.image_eq, image]
  have hkeys := @nodup_imageFields [] (by simp) es
  refine ⟨imageFields [] es, heq, hkeys, ?_⟩
  generalize imageFields [] es = fields at heq hkeys
  have himage := h.image_eq
  have hdepth := h.depth_le
  rw [heq] at himage hdepth
  rw [image_obj hkeys] at himage
  have hvalues : fields.map (fun f => (f.1, image f.2)) = fields := obj_inj himage
  have hlevels : ∀ e ∈ fields.map (fun f => (text f.1, f.2)), depth e.2 ≤ levels :=
    depthFields_le.mp (Nat.le_of_succ_le_succ hdepth)
  intro f hf
  refine ⟨?_, hlevels _ (mem_map_of_mem hf)⟩
  exact congrArg Prod.snd (map_inj_left.mp (hvalues.trans (map_id fields).symm) f hf)

theorem plain_null (levels : Nat) : Plain levels .null := ⟨rfl, Nat.zero_le _⟩

theorem plain_text (levels : Nat) (s : String) : Plain levels (.text s) := ⟨rfl, Nat.zero_le _⟩

theorem plain_int (levels : Nat) (n : Int) : Plain levels (.int n) := ⟨rfl, Nat.zero_le _⟩

theorem Plain.getD {d : Value} (h : Plain (levels + 1) v) (hd : Plain levels d) (k : String) :
    Plain levels (v.getD k d) := by
  cases v with
  | map es =>
    obtain ⟨fields, heq, -, hfields⟩ := h.exists_fields
    rw [heq, Value.getD, Value.get?_obj]
    cases hk : fields.lookup k with
    | none => exact hd
    | some x => exact hfields _ (mem_of_lookup hk)
  | _ => exact hd

end Json

namespace Store

open Json (image depth levelLimit)
open Files (Workspace)

/-! ## Places -/

theorem join_ne_empty (a : String) {b : String} (hb : b ≠ "") : Path.join a b ≠ "" := by
  unfold Path.join
  split
  · exact hb
  · split <;> simp [hb]

theorem manifestPath_ne_empty (root : String) : manifestPath root ≠ "" := join_ne_empty _ (by decide)

theorem graphPath_ne_empty (root file : String) : graphPath root file ≠ "" := join_ne_empty _ (by simp)

/-! ## Entries -/

/-- How many levels a value of an entry may have, which stands in three maps. -/
def entryLevels : Nat := levelLimit - 3

/-- An entry that is read as it was written. -/
structure Entry.Sound (e : Entry) : Prop where
  file : Json.Plain entryLevels e.file
  hash : Json.Plain entryLevels e.hash
  cache : Json.Plain entryLevels e.cache
  time : Json.Plain entryLevels e.time

theorem Entry.Sound.plain_value (h : e.Sound) : Json.Plain (entryLevels + 1) e.value := by
  refine .obj (by simp) ?_
  intro f hf
  simp only [mem_cons, not_mem_nil, or_false] at hf
  rcases hf with rfl | rfl | rfl | rfl
  · exact h.file
  · exact h.hash
  · exact h.cache
  · exact h.time

theorem Entry.sound_ofValue (hv : Json.Plain (entryLevels + 1) v) (h : Entry.ofValue v = .ok e) : e.Sound := by
  unfold ofValue at h
  split at h
  · split at h
    · cases h
      have hsub := fun k => hv.getD (plain_null entryLevels) k
      exact ⟨hsub _, hsub _, hsub _, hsub _⟩
    · cases h
  · cases h

/-! ## Manifests -/

structure Manifest.Sound (m : Manifest) : Prop where
  version : Json.Plain (entryLevels + 2) m.version
  keys : (m.entries.map (·.1)).Nodup
  entries : ∀ e ∈ m.entries, e.2.Sound

theorem Manifest.Sound.plain_value (h : m.Sound) : Json.Plain levelLimit m.value := by
  have hentries : Json.Plain (entryLevels + 2) (.obj (m.entries.map fun x => (x.1, x.2.value))) := by
    refine .obj ?_ ?_
    · simpa [Function.comp_def] using h.keys
    · intro f hf
      obtain ⟨e, he, rfl⟩ := mem_map.mp hf
      exact (h.entries e he).plain_value
  refine .obj (by simp) ?_
  intro f hf
  simp only [mem_cons, not_mem_nil, or_false] at hf
  rcases hf with rfl | rfl | rfl
  · exact h.version
  · exact plain_int _ _
  · exact hentries

theorem Manifest.ofValue_value (m : Manifest) : Manifest.ofValue m.value = .ok m := by
  have hentries : ((m.entries.map fun x => (x.1, x.2.value)).map fun x => (text x.1, x.2)).mapM Entry.named
      = .ok m.entries := by
    rw [mapM_eq_ok, forall₂_map_left_iff, forall₂_map_left_iff, forall₂_same]
    exact fun e he => rfl
  have hvalue : m.value.field "entries" (.obj []) = .ok (.obj (m.entries.map fun x => (x.1, x.2.value))) := rfl
  unfold ofValue
  rw [hvalue]
  simp only [obj, bind, Except.bind, hentries]
  rfl

theorem entries_of_fields {entries : List (String × Entry)}
    (h : List.Forall₂ (fun f e => Entry.named (.text f.1, f.2) = .ok e) fields entries)
    (hfields : ∀ f ∈ fields, Json.Plain (entryLevels + 1) f.2) :
    fields.map (·.1) = entries.map (·.1) ∧ ∀ e ∈ entries, e.2.Sound := by
  induction h with
  | nil => simp
  | @cons f e fields entries hnamed _ ih =>
    obtain ⟨hnames, hsound⟩ := ih fun f hf => hfields f (by simp [hf])
    obtain ⟨x, hx, hnamed⟩ := bind_eq_ok.mp hnamed
    cases hnamed
    refine ⟨by rw [map_cons, map_cons, hnames]; rfl, ?_⟩
    intro e he
    rcases mem_cons.mp he with rfl | he
    · exact Entry.sound_ofValue (hfields f (by simp)) hx
    · exact hsound e he

theorem Manifest.sound_ofValue (hv : Json.Plain levelLimit v) (h : ofValue v = .ok m) : m.Sound := by
  unfold ofValue at h
  obtain ⟨x, hx, h⟩ := bind_eq_ok.mp h
  have hplain : Json.Plain (entryLevels + 2) x := by
    unfold field at hx
    split at hx
    · cases hx
      exact hv.getD (@Json.Plain.obj _ [] (by simp) (by simp)) "entries"
    · cases hx
  cases x with
  | map es =>
    obtain ⟨entries, hentries, h⟩ := bind_eq_ok.mp h
    obtain ⟨time, -, h⟩ := bind_eq_ok.mp h
    cases h
    obtain ⟨fields, heq, hkeys, hfields⟩ := hplain.exists_fields
    cases heq
    rw [mapM_eq_ok, forall₂_map_left_iff] at hentries
    obtain ⟨hnames, hsound⟩ := entries_of_fields hentries hfields
    exact ⟨hv.getD (plain_text _ _) "version", hnames ▸ hkeys, hsound⟩
  | _ => cases h

theorem Manifest.sound_load (h : Manifest.load w formatVersion root = .ok m) : m.Sound := by
  have hempty : Manifest.Sound { version := formatVersion } := ⟨plain_text _ _, by simp, by simp⟩
  unfold load at h
  simp only [] at h
  split at h
  · cases h
  · cases h
    exact hempty
  · next s _ =>
    obtain ⟨x, hx, h⟩ := bind_eq_ok.mp h
    cases x with
    | none =>
      cases h
      exact hempty
    | some v =>
      refine sound_ofValue ?_ h
      unfold Json.readIfJson Json.read at hx
      cases hparse : Json.parse s with
      | ok v' =>
        rw [hparse] at hx
        cases hx
        exact plain_parse hparse
      | error e =>
        rw [hparse] at hx
        cases e <;> cases hx

theorem Manifest.Sound.record (h : m.Sound) (w : Workspace) (root file cache hash : String) :
    (m.record w root file cache hash).Sound where
  version := h.version
  keys := nodup_putField h.keys
  entries := by
    intro e he
    rcases mem_putField he with rfl | he
    · exact ⟨plain_text _ _, plain_text _ _, plain_text _ _, plain_int _ _⟩
    · exact h.entries e he

theorem Manifest.load_of_absent (h : w.file? (manifestPath root) = none)
    (version : Value) : Manifest.load w version root = .ok { version } := by
  unfold load
  generalize manifestPath root = p at h
  rcases w.read_eq p with ⟨c, hc, -⟩ | ⟨-, e, he, hread⟩
  · rw [h] at hc
    cases hc
  · simp [hread]

/-- A manifest depends on nothing but what its file holds. -/
theorem Manifest.load_congr (h : w'.file? (manifestPath root) = w.file? (manifestPath root)) (version : Value) :
    Manifest.load w' version root = Manifest.load w version root := by
  cases hc : w.file? (manifestPath root) with
  | none => rw [load_of_absent hc, load_of_absent (h.trans hc)]
  | some c =>
    unfold load
    simp only [Workspace.read_of_file? hc, Workspace.read_of_file? (h.trans hc)]

/-- A manifest that was written is read as it is. -/
theorem Manifest.load_saved (hm : m.Sound) (hw : w.Rooted)
    (h : m.save w root = .ok w') (version : Value) : Manifest.load w' version root = .ok m := by
  obtain ⟨s, hs, hplace⟩ := bind_eq_ok.mp h
  have hwrite := render_eq_ok.mp hs
  have hvalue := hm.plain_value
  have hparse : Json.parse s = .ok m.value := by
    rw [(parse_write (blank_indented 2) hwrite).1 hvalue.depth_le, hvalue.image_eq]
  have hreturn : '\r' ∉ s.toList := fun hmem => allOf_write (keeps_indented 2) hwrite _ hmem rfl
  have hread : w'.read (manifestPath root) = .ok s := by
    have hfile := Workspace.file?_place hw hplace (manifestPath root)
    rw [if_pos ⟨manifestPath_ne_empty root, rfl⟩] at hfile
    rw [Workspace.read_of_file? hfile, read_text hreturn]
  unfold load
  rw [hread]
  simp only [Json.readIfJson, Json.read, hparse, Except.mapError, bind, Except.bind, ofValue_value]

end Store

end SecScan
