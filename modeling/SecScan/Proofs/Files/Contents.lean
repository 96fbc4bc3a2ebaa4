import SecScan.Files.Disk
import SecScan.Proofs.Files.Paths
import SecScan.Proofs.Keyed

/-!
What files hold. Writing a file changes what it holds and nothing else (`file?_place`): the directories
that are made on the way are no files.
-/

namespace SecScan.Files

open SecScan.Path

variable (d : Disk) {p : String} {w w' : Workspace} {c : Content} {t : Float} {d' : Disk}

def Entry.content? : Entry → Option Content
  | .file c _ => some c
  | .dir _ => none

namespace Disk

/-- What a file holds; of what is no file, nothing. -/
def file? (d : Disk) (p : String) : Option Content := (d.get? p).bind (·.content?)

theorem toOption_content (p : String) : (d.content p).toOption = d.file? p := by
  unfold content file?
  cases d.get? p with
  | none => rfl
  | some e => cases e <;> rfl

theorem get?_put (p q : String) (e : Entry) :
    (d.put p e).get? q = if normalize q = normalize p then some e else d.get? q :=
  lookup_putField _ _ _ _

theorem get?_congr {q : String} (h : normalize p = normalize q) : d.get? p = d.get? q := by rw [get?, get?, h]

theorem file?_put (p q : String) (c : Content) (t : Float) :
    (d.put p (.file c t)).file? q = if normalize q = normalize p then some c else d.file? q := by
  rw [file?, get?_put]
  split <;> rfl

theorem isFile_eq (p : String) : d.isFile p = (d.file? p).isSome := by
  rw [isFile, file?]
  cases d.get? p with
  | none => rfl
  | some e => cases e <;> rfl

theorem get?_removeTree (p q : String) :
    (d.removeTree p).get? q = if isBelow p (normalize q) then none else d.get? q := by
  rw [get?, removeTree, lookup_filter_key (!Path.isBelow p ·)]
  cases isBelow p (normalize q) <;> rfl

/-- A directory that is made where nothing was leaves the files as they are. -/
theorem file?_put_dir {d : Disk} (h : d.has p = false) (t : Float) (q : String) :
    (d.put p (.dir t)).file? q = d.file? q := by
  have hnone : d.get? p = none := by
    rw [has, Bool.or_eq_false_iff] at h
    simpa using h.1
  rw [file?, file?, get?_put]
  by_cases hq : normalize q = normalize p
  · rw [if_pos hq, d.get?_congr hq, hnone]
    rfl
  · rw [if_neg hq]

theorem file?_makeDirStep {whole name : String} {x y : Disk × String}
    (h : makeDirStep t whole x name = .ok y) (q : String) : y.1.file? q = x.1.file? q := by
  unfold makeDirStep at h
  simp only [] at h
  split at h
  · cases h
    rfl
  · split at h
    · cases h
    · next hhas =>
      cases h
      exact file?_put_dir (by simpa using hhas) t q

theorem file?_makeDirs {d : Disk} (h : d.makeDirs t p = .ok d') (q : String) : d'.file? q = d.file? q := by
  have hsteps : ∀ (l : List String) {x y : Disk × String},
      l.foldlM (makeDirStep t (normalize p)) x = .ok y → y.1.file? q = x.1.file? q := by
    intro l
    induction l with
    | nil =>
      intro x y h
      cases h
      rfl
    | cons name l ih =>
      intro x y h
      rw [List.foldlM_cons] at h
      obtain ⟨z, hstep, h⟩ := bind_eq_ok.mp h
      rw [ih h, file?_makeDirStep hstep]
  obtain ⟨y, hy, rfl⟩ := map_eq_ok.mp h
  exact hsteps _ hy

theorem file?_write {d : Disk} (h : d.write t p c = .ok d') (q : String) :
    d'.file? q = if normalize q = normalize p then some c else d.file? q := by
  unfold write at h
  split at h
  · cases h
  · split at h
    · cases h
      exact file?_put ..
    · cases h

theorem file?_place {d : Disk} (h : d.place t p c = .ok d') (q : String) :
    d'.file? q = if normalize q = normalize p then some c else d.file? q := by
  obtain ⟨d1, hdirs, hwrite⟩ := bind_eq_ok.mp h
  rw [file?_write hwrite, file?_makeDirs hdirs]

end Disk

namespace Workspace

def file? (w : Workspace) (p : String) : Option Content := (w.content p).toOption

theorem file?_eq (w : Workspace) (p : String) : w.file? p = if p = "" then none else w.disk.file? (w.absolute p) := by
  unfold file? content named
  by_cases hp : p = ""
  · simp [hp, bind, Except.bind, Except.toOption]
  · simp [hp, bind, Except.bind, ← Disk.toOption_content]

/-- The current directory is given from the root. -/
def Rooted (w : Workspace) : Prop := isAbsolute w.cwd = true

theorem Rooted.normalize_absolute (hw : w.Rooted) (p : String) : normalize (w.absolute p) = w.absolute p :=
  Path.normalize_idem (isAbsolute_join hw p)

theorem file?_place (hw : w.Rooted) (h : w.place p c = .ok w')
    (q : String) : w'.file? q = if q ≠ "" ∧ w.absolute q = w.absolute p then some c else w.file? q := by
  obtain ⟨d, hd, h⟩ := bind_eq_ok.mp h
  cases h
  rw [file?_eq, file?_eq]
  by_cases hq : q = ""
  · simp [hq]
  · have habs : ({ w with disk := d } : Workspace).absolute q = w.absolute q := rfl
    simp [hq, habs, Disk.file?_place hd, hw.normalize_absolute]

theorem cwd_place (h : w.place p c = .ok w') : w'.cwd = w.cwd ∧ w'.now = w.now := by
  obtain ⟨d, -, h⟩ := bind_eq_ok.mp h
  cases h
  exact ⟨rfl, rfl⟩

theorem absolute_congr (h : w'.cwd = w.cwd) (p : String) : w'.absolute p = w.absolute p := by rw [absolute, absolute, h]

theorem Rooted.congr (hw : w.Rooted) (h : w'.cwd = w.cwd) : w'.Rooted := by
  rw [Rooted, h]
  exact hw

theorem file?_congr {q : String} (hp : p ≠ "") (hq : q ≠ "")
    (h : w.absolute p = w.absolute q) : w.file? p = w.file? q := by
  rw [file?_eq, file?_eq, if_neg hp, if_neg hq, h]

def without (w : Workspace) (p : String) : Workspace := { w with disk := w.disk.removeTree p }

theorem without_without (w : Workspace) (p : String) : (w.without p).without p = w.without p := by
  simp [without, Disk.removeTree, List.filter_filter]

theorem absolute_without (w : Workspace) (p q : String) : (w.without p).absolute q = w.absolute q := rfl

theorem file?_without (hw : w.Rooted) (p q : String) :
    (w.without p).file? q = if isBelow p (w.absolute q) then none else w.file? q := by
  rw [file?_eq, file?_eq, absolute_without, Disk.file?, without, Disk.get?_removeTree, hw.normalize_absolute]
  cases isBelow p (w.absolute q) <;> simp [Disk.file?]

theorem has_of_file? (h : w.file? p = some c) : w.has p = true := by
  rw [file?_eq] at h
  split at h
  · cases h
  · next hp =>
    obtain ⟨e, he, -⟩ := Option.bind_eq_some_iff.mp h
    simp [has, Disk.has, hp, he]

/-- The text of a file; that there is none is never for what it holds. -/
theorem read_eq (w : Workspace) (p : String) : (∃ c, w.file? p = some c ∧ w.read p = c.read)
    ∨ (w.file? p = none ∧ ∃ e, e ≠ .notText ∧ w.read p = .error e) := by
  have habsence : w.disk.absence (w.absolute p) ≠ .notText := by
    unfold Disk.absence
    split <;> simp
  unfold file? content read named Disk.read Disk.content
  by_cases hp : p = ""
  · right
    simp [hp, bind, Except.bind, Except.toOption]
  · simp only [beq_iff_eq, hp, ↓reduceIte, bind, Except.bind]
    cases w.disk.get? (w.absolute p) with
    | some e =>
      cases e with
      | file c t => exact .inl ⟨c, rfl, rfl⟩
      | dir t => exact .inr ⟨rfl, .isDirectory, by simp, rfl⟩
    | none =>
      refine .inr ⟨rfl, _, ?_, rfl⟩
      split
      · simp
      · exact habsence

theorem read_of_file? (h : w.file? p = some c) : w.read p = c.read := by
  rcases w.read_eq p with ⟨c', hc', hread⟩ | ⟨hnone, -⟩
  · rw [hread, Option.some.inj (h.symm.trans hc')]
  · exact absurd (h.symm.trans hnone) nofun

end Workspace

end SecScan.Files

/-!
When a file can be written: if the files and the directories of a disk are known and none stands in the place of
another (`Only.place`).
-/

namespace SecScan.Files.Disk

open List SecScan.Path

variable {d : Disk} {p s x : String} {dirs files : List String}

theorem has_eq_false : d.has p = false ↔ d.isDir p = false ∧ d.file? p = none := by
  rw [has, isDir, file?]
  cases d.get? p with
  | none => simp
  | some e => cases e <;> simp [Entry.isDir, Entry.content?]

/-- The directories on a way, as they are made one after another. -/
def stops (s : String) : List String → List String
  | [] => []
  | x :: l => (s ++ "/" ++ x) :: stops (s ++ "/" ++ x) l

/-- The directories and the files of a disk are among the given ones. -/
def Only (d : Disk) (dirs files : List String) : Prop := ∀ e ∈ d.entries, e.1 ∈ if e.2.isDir then dirs else files

namespace Only

variable (h : d.Only dirs files)

include h

theorem put {e : Entry} (he : normalize p ∈ if e.isDir then dirs else files) : (d.put p e).Only dirs files := by
  intro x hx
  rcases mem_putField hx with rfl | hx
  · exact he
  · exact h x hx

theorem isDir_eq_false (hp : normalize p ∉ "/" :: dirs) : d.isDir p = false := by
  rw [mem_cons, not_or] at hp
  cases hget : d.get? p with
  | none => simp [isDir, hget, hp.1]
  | some e =>
    cases e with
    | file => simp [isDir, hget, hp.1, Entry.isDir]
    | dir => exact absurd (h _ (mem_of_lookup hget)) hp.2

theorem file?_eq_none (hp : normalize p ∉ files) : d.file? p = none := by
  rw [file?]
  cases hget : d.get? p with
  | none => rfl
  | some e =>
    cases e with
    | file => exact absurd (h _ (mem_of_lookup hget)) hp
    | dir => rfl

theorem makeDirStep (t : Float) (whole : String) (hdir : normalize (s ++ "/" ++ x) ∈ dirs)
    (hfile : normalize (s ++ "/" ++ x) ∉ files) : ∃ d', Disk.makeDirStep t whole (d, s) x = .ok (d', s ++ "/" ++ x)
      ∧ d'.Only dirs files ∧ d'.isDir (s ++ "/" ++ x) = true := by
  unfold Disk.makeDirStep
  by_cases hthere : d.isDir (s ++ "/" ++ x) = true
  · exact ⟨d, if_pos hthere, h, hthere⟩
  · refine ⟨d.put (s ++ "/" ++ x) (.dir t), ?_, h.put hdir, by simp [isDir, get?_put, Entry.isDir]⟩
    simp [hthere, has_eq_false.mpr ⟨Bool.eq_false_iff.mpr hthere, h.file?_eq_none hfile⟩]

theorem makeDirSteps (t : Float) (whole : String) (l : List String)
    (hway : ∀ q ∈ stops s l, normalize q ∈ dirs ∧ normalize q ∉ files) :
    ∃ y, l.foldlM (Disk.makeDirStep t whole) (d, s) = .ok y ∧ y.1.Only dirs files
      ∧ ∀ q ∈ (stops s l).getLast?, y.1.isDir q = true := by
  induction l generalizing d s with
  | nil => exact ⟨(d, s), rfl, h, by simp [stops]⟩
  | cons x l ih =>
    obtain ⟨hfirst, hrest⟩ := forall_mem_cons.mp hway
    obtain ⟨d', hstep, honly, hdir⟩ := h.makeDirStep t whole hfirst.1 hfirst.2
    obtain ⟨y, hy, honly', hlast⟩ := ih honly hrest
    refine ⟨y, by rw [foldlM_cons, hstep]; exact hy, honly', fun q hq => ?_⟩
    cases l with
    | nil =>
      cases hy
      obtain rfl : s ++ "/" ++ x = q := by simpa [stops] using hq
      exact hdir
    | cons => exact hlast q (by simpa [stops] using hq)

/-- A file can be written if its place is that of a file and the way to it is one of directories. -/
theorem place (t : Float) (c : Content) (hp : normalize p = p) (hfile : p ∈ files) (hfree : p ∉ "/" :: dirs)
    (hlast : parent p ∈ (stops "" (parts (parent p))).getLast?)
    (hway : ∀ q ∈ stops "" (parts (parent p)), normalize q ∈ dirs ∧ normalize q ∉ files) :
    ∃ d', d.place t p c = .ok d' ∧ d'.Only dirs files := by
  obtain ⟨y, hy, honly, hdir⟩ := h.makeDirSteps t (normalize (parent p)) _ hway
  have hmake : d.makeDirs t (parent p) = .ok y.1 := map_eq_ok.mpr ⟨y, hy, rfl⟩
  have hfree' : y.1.isDir p = false := honly.isDir_eq_false (hp.symm ▸ hfree)
  refine ⟨y.1.put p (.file c t), ?_, honly.put (hp.symm ▸ hfile)⟩
  simp [Disk.place, hp, hmake, bind, Except.bind, write, hfree', hdir _ hlast]

end Only

end SecScan.Files.Disk
