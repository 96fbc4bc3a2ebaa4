import SecScan.Pipeline.Site
import SecScan.Proofs.Flow.Growth
import SecScan.Proofs.Keyed

/-!
Where reported findings go. A finding is taken for one of the analysed file if its path leads there, or if the
text of its path is the end of the file's: the pieces of the path behind the first are then the last ones of the
file's, but the first may be the end of a longer name (`skipped_iff`). Each finding that is taken goes to the first
block with an item that covers its line, or to those that no block has (`findings_placed`).
-/

namespace SecScan.Pipeline

open List Value SecScan.Path

variable {cwd file : String} {blocks : List Flow.Block} {f report : Value} {l : List Value}

/-! ## Findings of other files -/

def pieces (p : String) : List (List Char) := p.toList.splitOn '/'

/-- The pieces behind the first are the last of the others, and the first is the end of the one before them. -/
def EndsIn {α : Type} (l m : List (List α)) : Prop :=
  ∃ before x y after, l = before ++ x :: after ∧ m = y :: after ∧ y <:+ x

theorem splitOn_append_eq {α : Type} [DecidableEq α] (a : α) (r l : List α) : ∃ before x y after,
    (r ++ l).splitOn a = before ++ (x ++ y) :: after ∧ l.splitOn a = y :: after := by
  induction r with
  | nil =>
    obtain ⟨y, after, h⟩ := exists_cons_of_ne_nil (splitOn_ne_nil a l)
    exact ⟨[], [], y, after, by simp [h], h⟩
  | cons c r ih =>
    obtain ⟨before, x, y, after, h, hl⟩ := ih
    rw [cons_append, splitOn_cons_eq_if_modifyHead, h]
    split
    · exact ⟨[] :: before, x, y, after, by simp, hl⟩
    · cases before with
      | nil => exact ⟨[], c :: x, y, after, by simp, hl⟩
      | cons b before => exact ⟨(c :: b) :: before, x, y, after, by simp, hl⟩

theorem isSuffix_iff_endsIn {α : Type} [DecidableEq α] (a : α) (l m : List α) :
    m <:+ l ↔ EndsIn (l.splitOn a) (m.splitOn a) := by
  constructor
  · rintro ⟨r, rfl⟩
    obtain ⟨before, x, y, after, h, hm⟩ := splitOn_append_eq a r m
    exact ⟨before, x ++ y, y, after, h, hm, suffix_append x y⟩
  · rintro ⟨before, _, y, after, hl, hm, z, rfl⟩
    rw [← show [a].intercalate (l.splitOn a) = l from intercalate_splitOn a,
      ← show [a].intercalate (m.splitOn a) = m from intercalate_splitOn a, hl, hm]
    clear hl
    induction before with
    | nil =>
      refine ⟨z, ?_⟩
      cases after <;> simp [intercalate_cons_cons]
    | cons b before ih =>
      have hne : before ++ (z ++ y) :: after ≠ [] := by simp
      rw [cons_append, intercalate_cons_of_ne_nil hne]
      exact ih.trans (suffix_append _ _)

theorem isElsewhere_eq_true {path : Value} : isElsewhere cwd file path = .ok true ↔ ∃ p, path = .text p ∧ p ≠ "" ∧
    absolute cwd p ≠ absolute cwd file ∧ ¬ EndsIn (pieces (absolute cwd file)) (pieces p) := by
  have hends : ∀ p, Text.hasSuffix (absolute cwd file) p = true ↔
      EndsIn (pieces (absolute cwd file)) (pieces p) := by
    intro p
    rw [Text.hasSuffix, isSuffixOf_iff_suffix, isSuffix_iff_endsIn '/']
    rfl
  unfold isElsewhere
  split
  · next hfalse =>
    constructor
    · simp
    · rintro ⟨p, rfl, hp, -⟩
      simp [truthy, hp] at hfalse
  · next htrue =>
    cases path with
    | text p =>
      have hp : p ≠ "" := by simpa [truthy] using htrue
      simp [denotes, hp, ← hends]
    | _ => simp

theorem field_eq_text {k p : String} : f.field k = .ok (.text p) ↔ f.get? k = some (.text p) := by
  cases f with
  | map es => simp [field, Value.getD, Option.getD_eq_iff]
  | _ => simp [field, get?]

variable (cwd file : String)

theorem skipped_iff (blocks : List Flow.Block) (f : Value) :
    disposition cwd file blocks f = .ok .skipped ↔ ∃ p, f.get? "path" = some (.text p) ∧ p ≠ "" ∧
      absolute cwd p ≠ absolute cwd file ∧ ¬ EndsIn (pieces (absolute cwd file)) (pieces p) := by
  constructor
  · intro h
    obtain ⟨path, hpath, h⟩ := bind_eq_ok.mp h
    obtain ⟨elsewhere, helsewhere, h⟩ := bind_eq_ok.mp h
    cases elsewhere with
    | true =>
      obtain ⟨p, rfl, hp⟩ := isElsewhere_eq_true.mp helsewhere
      exact ⟨p, field_eq_text.mp hpath, hp⟩
    | false =>
      -- what is not of another file is left over or placed
      obtain ⟨start, -, h⟩ := bind_eq_ok.mp h
      obtain ⟨line, -, h⟩ := bind_eq_ok.mp h
      split at h
      · cases h
      · obtain ⟨b, -, h⟩ := bind_eq_ok.mp h
        split at h
        · cases h
        · simp only [bind_eq_ok] at h
          obtain ⟨_, _, _, _, _, _, _, _, _, _, h⟩ := h
          cases h
  · rintro ⟨p, hpath, hp⟩
    unfold disposition
    rw [field_eq_text.mpr hpath]
    simp only [bind, Except.bind, isElsewhere_eq_true.mpr ⟨p, rfl, hp⟩]
    rfl

theorem longer_name_taken : absolute "/p" "b.py" ≠ absolute "/p" "ab.py"
    ∧ ¬ pieces "b.py" <:+ pieces (absolute "/p" "ab.py")
    ∧ disposition "/p" "ab.py" [] (.obj [("path", .text "b.py")]) = .ok .unmapped :=
  ⟨by decide, by decide, rfl⟩

/-! ## Findings of this file -/

def coversLine (n : Int) (i : Flow.Item) : Bool := i.node.loc?.any fun l => decide (l.line ≤ n ∧ n ≤ l.endLine)

theorem covers_int (n : Int) (i : Flow.Item) : covers (.int n) i = .ok (coversLine n i) := by
  have hle : ∀ a b : Int, atMost (.int a) (.int b) = .ok (decide (a ≤ b)) := by
    intro a b
    refine congrArg Except.ok (show (compare a b != .gt) = _ from ?_)
    simp only [compare, compareOfLessAndEq]
    grind
  unfold covers coversLine
  cases i.node.loc? with
  | none => rfl
  | some l =>
    simp only [nat, hle, Option.any_some, Bool.decide_and]
    cases decide ((l.line : Int) ≤ n) <;> rfl

theorem coveredBy_int (n : Int) (items : List Flow.Item) :
    coveredBy (.int n) items = .ok (items.any (coversLine n)) := by
  induction items with
  | nil => rfl
  | cons i items ih =>
    rw [coveredBy, covers_int, any_cons, ih]
    cases coversLine n i <;> rfl

theorem blockAt_int (n : Int) (blocks : List Flow.Block) :
    blockAt (.int n) blocks = .ok (blocks.find? (·.items.any (coversLine n))) := by
  induction blocks with
  | nil => rfl
  | cons b blocks ih =>
    rw [blockAt, coveredBy_int, find?_cons, ih]
    cases b.items.any (coversLine n) <;> rfl

/-- A finding as a report gives it: what it says of its place and its rule is of the right kind, and its path,
unless it has none, can be compared with that of a file. -/
structure Regular (f : Value) : Prop where
  object : f.isMap = true
  path : (f.getD "path" .null).truthy = true → ∃ p, f.getD "path" .null = .text p
  start : (f.getD "start" (.obj [])).isMap = true
  line : (f.getD "start" (.obj [])).getD "line" .null = .null
    ∨ ∃ n, (f.getD "start" (.obj [])).getD "line" .null = .int n
  extra : (f.getD "extra" (.obj [])).isMap = true

/-- The first block with an item that covers the line of a finding, if it has one. Lines count from 1. -/
def home (blocks : List Flow.Block) (f : Value) : Option Flow.Block :=
  match (f.getD "start" (.obj [])).getD "line" .null with
  | .int n => if n = 0 then none else blocks.find? (·.items.any (coversLine n))
  | _ => none

/-- Whether the path of a finding, if it has one, is taken for that of the file. -/
def concerns (f : Value) : Bool :=
  match f.getD "path" .null with
  | .text p => p == "" || denotes cwd file p
  | _ => true

def record (f : Value) : Value :=
  let start := f.getD "start" (.obj [])
  let extra := f.getD "extra" (.obj [])
  .obj [("check_id", f.getD "check_id" .null), ("message", extra.getD "message" .null),
    ("severity", extra.getD "severity" .null), ("line", start.getD "line" .null), ("column", start.getD "col" .null)]

def fate (blocks : List Flow.Block) (f : Value) : Disposition :=
  if concerns cwd file f then
    match home blocks f with
    | some b => .placed b.id (record f)
    | none => .unmapped
  else .skipped

theorem Regular.disposition_eq (h : Regular f) : disposition cwd file blocks f = .ok (fate cwd file blocks f) := by
  have helsewhere : isElsewhere cwd file (f.getD "path" .null) = .ok (!concerns cwd file f) := by
    unfold isElsewhere concerns
    cases htruthy : (f.getD "path" .null).truthy with
    | true =>
      obtain ⟨p, hpath⟩ := h.path htruthy
      have hp : p ≠ "" := by simpa [hpath, truthy] using htruthy
      simp [hpath, hp]
    | false => cases hpath : f.getD "path" .null <;> simp_all [truthy]
  unfold disposition fate home
  simp only [field_of_isMap h.object, bind, Except.bind, helsewhere, field_of_isMap h.start, field_of_isMap h.extra]
  cases concerns cwd file f with
  | false => rfl
  | true =>
    rcases h.line with hline | ⟨n, hline⟩
    · simp [hline, truthy, pure, Except.pure]
    · by_cases hn : n = 0
      · simp [hline, truthy, hn, pure, Except.pure]
      · simp only [hline, truthy, blockAt_int, hn, record]
        cases blocks.find? (·.items.any (coversLine n)) <;> simp [hn, pure, Except.pure]

theorem placedIn_map (b : Nat) (l : List Value) : placedIn b (l.map (fate cwd file blocks)) =
    (l.filter fun f => concerns cwd file f && (home blocks f).any (·.id == b)).map record := by
  induction l with
  | nil => rfl
  | cons f l ih =>
    rw [map_cons, placedIn, filterMap_cons, ← placedIn, ih, filter_cons]
    unfold fate
    cases concerns cwd file f with
    | false => rfl
    | true =>
      cases home blocks f with
      | none => rfl
      | some c => cases hc : c.id == b <;> simp [hc]

theorem leftOver_zip (l : List Value) : leftOver (l.zip (l.map (fate cwd file blocks))) =
    l.filter fun f => concerns cwd file f && (home blocks f).isNone := by
  induction l with
  | nil => rfl
  | cons f l ih =>
    rw [map_cons, zip_cons_cons, leftOver, filterMap_cons, ← leftOver, ih, filter_cons]
    unfold fate
    cases concerns cwd file f with
    | false => rfl
    | true => cases home blocks f <;> rfl

theorem mem_of_home {b : Flow.Block} (h : home blocks f = some b) : b ∈ blocks := by
  unfold home at h
  split at h
  · split at h
    · cases h
    · exact mem_of_find?_eq_some h
  · cases h

theorem mapM_fate (blocks : List Flow.Block) {old : List Value} (hl : ∀ f ∈ l, Regular f)
    (hold : report.getD "unmapped" (.list []) = .list old) :
    (l.mapM fun f => do
      let d ← disposition cwd file blocks f
      requireRoom report d
      return d) = .ok (l.map (fate cwd file blocks)) := by
  rw [mapM_eq_ok, forall₂_map_right_iff, forall₂_same]
  intro f hf
  rw [(hl f hf).disposition_eq]
  cases hd : fate cwd file blocks f <;> simp [requireRoom, hold, bind, Except.bind, pure, Except.pure]

/-- Placing the findings of a report succeeds. Of the findings that are taken for those of the file, in order, each
block gets behind its earlier ones those whose line is covered there first, and the others are added to those left
over. No finding goes to two blocks. -/
theorem findings_placed (sites : List Site) (report : Value) {count : Nat} {name : String}
    {m : Syntax.Module} {l old : List Value}
    (hsites : sites.map (·.block) = (Flow.Graph.buildFrom count name (.module m)).1.blocks)
    (hresults : report.get? "results" = some (.list l)) (hl : ∀ f ∈ l, Regular f)
    (hold : report.getD "unmapped" (.list []) = .list old) :
    ∃ report', place cwd file sites report = .ok (sites.map fun s =>
        { s with findings := s.findings ++ (l.filter fun f => concerns cwd file f &&
            (home (sites.map (·.block)) f).any (·.id == s.block.id)).map record }, report')
      ∧ report'.getD "unmapped" (.list []) =
        .list (old ++ l.filter fun f => concerns cwd file f && (home (sites.map (·.block)) f).isNone)
      ∧ ∀ f b, home (sites.map (·.block)) f = some b → ∃! s, s ∈ sites ∧ s.block.id = b.id := by
  obtain ⟨hmap, htruthy⟩ : report.isMap = true ∧ report.truthy = true := by
    cases report with
    | map es => cases es <;> first | exact ⟨rfl, rfl⟩ | cases hresults
    | _ => cases hresults
  have hfield : report.field "results" (.list []) = .ok (.list l) := by
    rw [field_of_isMap hmap, Value.getD, hresults, Option.getD_some]
  have honce : ∀ f b, home (sites.map (·.block)) f = some b → ∃! s, s ∈ sites ∧ s.block.id = b.id := by
    intro f b hb
    obtain ⟨s, hs, rfl⟩ := mem_map.mp (mem_of_home hb)
    have hnodup : ((sites.map (·.block)).map (·.id)).Nodup :=
      hsites ▸ (Flow.stage_build count name (.module m)).sound.graph.nodup
    rw [map_map] at hnodup
    exact ⟨s, ⟨hs, rfl⟩, fun t ht => inj_on_of_nodup_map hnodup ht.1 hs ht.2⟩
  unfold place
  simp only [htruthy, hfield, bind, Except.bind, Bool.not_true, Bool.false_eq_true, ↓reduceIte, Value.each]
  cases l with
  | nil => exact ⟨report, by simp [Value.truthy, pure, Except.pure], by simpa using hold, honce⟩
  | cons f l =>
    have hfates := mapM_fate cwd file (sites.map (·.block)) hl hold
    simp only [bind, Except.bind] at hfates
    simp only [hfates, placedIn_map, leftOver_zip]
    refine ⟨_, rfl, ?_, honce⟩
    rw [withLeftOver, hold, Value.getD, Value.get?_put hmap, if_pos rfl, Option.getD_some]

/-- `while c: d` -/
def idling : Syntax.Module where
  body := [.whileLoop ⟨1, 0, 2, 5⟩ (.name ⟨1, 6, 1, 7⟩ "c" .load) 
    [.expr ⟨2, 4, 2, 5⟩ (.name ⟨2, 4, 2, 5⟩ "d" .load)] []]

def findingAt (path : String) (line : Int) : Value := .obj [("path", .text path), ("start", .obj [("line", .int line)])]

/-- One finding in the body of the loop, one behind its end, and one of another file. -/
theorem findings_of_idling : ∃ sites report', place "/p" "m.py" (sitesOf (Flow.Graph.build "m" (.module idling)))
      (.obj [("results", .list [findingAt "m.py" 2, findingAt "m.py" 3, findingAt "n.py" 1])]) = .ok (sites, report')
    ∧ sites.map (·.findings.length) = [0, 0, 1, 0]
    ∧ report'.getD "unmapped" (.list []) = .list [findingAt "m.py" 3] := by
  have hregular : ∀ path line, Regular (findingAt path line) := fun path line =>
    ⟨rfl, fun _ => ⟨path, rfl⟩, rfl, .inr ⟨line, rfl⟩, rfl⟩
  have hsites : (sitesOf (Flow.Graph.build "m" (.module idling))).map (·.block)
      = (Flow.Graph.buildFrom 0 "m" (.module idling)).1.blocks := by simp [sitesOf, Flow.Graph.build, Function.comp_def]
  obtain ⟨report', hplace, hleft, -⟩ := findings_placed "/p" "m.py" _ (.obj [("results",
    .list [findingAt "m.py" 2, findingAt "m.py" 3, findingAt "n.py" 1])]) hsites rfl (by simp [hregular]) rfl
  exact ⟨_, report', hplace, by decide, hleft.trans (by rfl)⟩

end SecScan.Pipeline
