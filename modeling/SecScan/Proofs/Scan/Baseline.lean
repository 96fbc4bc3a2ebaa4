import Mathlib.Data.Finset.Card
import SecScan.Proofs.Store.Saving
import SecScan.Scan.Baseline

/-!
A baseline of known findings. The text that a finding is known by joins seven parts with a bar that is not escaped:
two findings of one text agree in the hash of their code, and in all else as soon as the bars are spread over the
parts in the same way (`same_finding_iff`). Over any run of calls on a baseline (`Reflects.run`), filtering leaves
out exactly what was saved last, and the summary counts what the calls have returned and met
(`partitioned_over_run`).
-/

namespace SecScan.Scan

open List

variable {file lines : Value} {calls : List Call} {u : Usage}
variable (b : Baseline) {cwd root : String}

/-! ## Fingerprints -/

namespace Position

theorem toList_text_number (n : Int) :
    (number n).text.toList = (if n < 0 then ['-'] else []) ++ Nat.toDigits 10 n.natAbs := by
  cases n with
  | ofNat k =>
    have htext : (number (k : Int)).text = Nat.repr k := rfl
    simp [htext]
  | negSucc k =>
    have htext : (number (Int.negSucc k)).text = "-" ++ Nat.repr (k + 1) := rfl
    simp [htext]

theorem isDigit_of_mem_text {n : Int} {c : Char} (h : c ∈ (number n).text.toList) : c = '-' ∨ c.isDigit := by
  rw [toList_text_number, mem_append] at h
  rcases h with h | h
  · split at h <;> simp_all
  · exact .inr (Nat.isDigit_of_mem_toDigits (by decide) (by decide) h)

theorem bar_not_mem_text (p : Position) : '|' ∉ p.text.toList := by
  cases p with
  | number n =>
    intro h
    exact absurd (isDigit_of_mem_text h) (by decide)
  | truth b => cases b <;> decide

theorem number_text_ne_truth (n : Int) (b : Bool) : (number n).text ≠ (truth b).text := by
  intro h
  have hletter : 'e' ∈ (truth b).text.toList := by cases b <;> decide
  exact absurd (isDigit_of_mem_text (h ▸ hletter)) (by decide)

theorem text_number_inj {m n : Int} (h : (number m).text = (number n).text) : m = n := by
  have hlist := congrArg String.toList h
  rw [toList_text_number, toList_text_number] at hlist
  have hminus : ∀ k : Nat, '-' ∉ Nat.toDigits 10 k := by
    intro k hk
    exact absurd (Nat.isDigit_of_mem_toDigits (by decide) (by decide) hk) (by decide)
  split at hlist <;> split at hlist
  · have := toDigits_inj (List.cons.inj hlist).2
    omega
  · exact absurd (by rw [← nil_append (Nat.toDigits _ _), ← hlist]; exact mem_cons_self) (hminus n.natAbs)
  · exact absurd (by rw [← nil_append (Nat.toDigits _ _), hlist]; exact mem_cons_self) (hminus m.natAbs)
  · have := toDigits_inj hlist
    omega

theorem text_injective : Function.Injective text := by
  intro p q h
  cases p with
  | number m =>
    cases q with
    | number n => rw [text_number_inj h]
    | truth c => exact absurd h (number_text_ne_truth m c)
  | truth b =>
    cases q with
    | number n => exact absurd h.symm (number_text_ne_truth n b)
    | truth c => cases b <;> cases c <;> first | rfl | exact absurd h (by decide)

end Position

/-- The separators in a part of a fingerprint. -/
def bars (s : String) : Nat := s.toList.count '|'

theorem bars_eq_zero {s : String} : bars s = 0 ↔ '|' ∉ s.toList := count_eq_zero

theorem append_bar_inj {x y : String} {s t : List Char} (hbars : bars x = bars y)
    (h : x.toList ++ '|' :: s = y.toList ++ '|' :: t) : x = y ∧ s = t := by
  unfold bars at hbars
  rcases append_eq_append_iff.mp h with ⟨l, hy, heq⟩ | ⟨l, hx, heq⟩
  · cases l with
    | nil => exact ⟨String.toList_inj.mp (by simpa using hy.symm), by simpa using heq⟩
    | cons c l =>
      obtain rfl : '|' = c := (List.cons.inj heq).1
      simp [hy] at hbars
  · cases l with
    | nil => exact ⟨String.toList_inj.mp (by simpa using hx), by simpa using heq.symm⟩
    | cons c l =>
      obtain rfl : '|' = c := (List.cons.inj heq).1
      simp [hx] at hbars

theorem Fingerprint.toList_text (p : Fingerprint) :
    p.text.toList = (p.rule.toList ++ '|' :: (p.file.toList ++ '|' :: (p.line.text.toList ++ '|' ::
      (p.column.text.toList ++ '|' :: (p.sink.toList ++ '|' :: p.source.toList))))) ++ '|' :: p.codeHash.toList := by
  simp [Fingerprint.text]

theorem bar_not_mem_codeHash {finding : Value} {p : Fingerprint}
    (h : fingerprint cwd root finding file lines = .ok p) : '|' ∉ p.codeHash.toList := by
  have hhash : ∃ ls, codeHash ls = .ok p.codeHash := by
    unfold fingerprint at h
    split_ifs at h
    · simp only [bind_eq_ok] at h
      obtain ⟨line, -, column, -, sink, -, source, -, last, -, ls, -, hash, hhash, h⟩ := h
      split at h
      · obtain rfl := Except.ok.inj h
        exact ⟨ls, hhash⟩
      · cases h
    · cases h
  obtain ⟨ls, hhash⟩ := hhash
  obtain ⟨texts, -, htexts⟩ := bind_eq_ok.mp hhash
  rw [← Except.ok.inj htexts]
  intro hbar
  exact absurd (Store.digest_char hbar) (by decide)

/-- Findings of one text agree in the hash of their code. They agree in all their parts if and only if as many bars
stand in their rules, in their paths and in their sinks. -/
theorem same_finding_iff {cwd root : String} {finding finding' file file' lines lines' : Value} {p q : Fingerprint}
    (hp : fingerprint cwd root finding file lines = .ok p)
    (hq : fingerprint cwd root finding' file' lines' = .ok q) (h : p.text = q.text) :
    p.codeHash = q.codeHash ∧
      (p = q ↔ bars p.rule = bars q.rule ∧ bars p.file = bars q.file ∧ bars p.sink = bars q.sink) := by
  have hlist := congrArg String.toList h
  rw [Fingerprint.toList_text, Fingerprint.toList_text] at hlist
  -- The hash has no bar, so that the last bar of the text stands before it.
  obtain ⟨hfront, hhash⟩ := append_separator_inj (bar_not_mem_codeHash hp) (bar_not_mem_codeHash hq) hlist
  have hhash : p.codeHash = q.codeHash := String.toList_inj.mp hhash
  have hposition : ∀ a b : Position, bars a.text = bars b.text := by
    intro a b
    rw [bars_eq_zero.mpr a.bar_not_mem_text, bars_eq_zero.mpr b.bar_not_mem_text]
  refine ⟨hhash, fun heq => by simp [heq], ?_⟩
  rintro ⟨hrules, hfiles, hsinks⟩
  obtain ⟨hrule, hfront⟩ := append_bar_inj hrules hfront
  obtain ⟨hfile, hfront⟩ := append_bar_inj hfiles hfront
  obtain ⟨hline, hfront⟩ := append_bar_inj (hposition _ _) hfront
  obtain ⟨hcolumn, hfront⟩ := append_bar_inj (hposition _ _) hfront
  obtain ⟨hsink, hsource⟩ := append_bar_inj hsinks hfront
  obtain ⟨rule, file, line, column, sink, source, hash⟩ := p
  obtain rfl := Position.text_injective hline
  obtain rfl := Position.text_injective hcolumn
  obtain rfl := String.toList_inj.mp hsource
  subst hrule hfile hsink hhash
  rfl

/-- A finding without a place, in a file without lines. -/
def placeless (sink source : String) : Value :=
  .obj [("rule_id", .text "R"), ("sink", .text sink), ("source", .text source)]

def placelessPrint (sink source : String) : Fingerprint :=
  { rule := "R", file := "m.py", line := .number 1, column := .number 1, sink, source, codeHash := Digest.sha256 "" }

theorem fingerprint_barredSink :
    fingerprint "/p" "/p" (placeless "a|b" "c") (.text "m.py") (.list []) = .ok (placelessPrint "a|b" "c") := rfl

theorem fingerprint_barredSource :
    fingerprint "/p" "/p" (placeless "a" "b|c") (.text "m.py") (.list []) = .ok (placelessPrint "a" "b|c") := rfl

theorem text_barred : (placelessPrint "a|b" "c").text = (placelessPrint "a" "b|c").text := by
  rw [← String.toList_inj, Fingerprint.toList_text, Fingerprint.toList_text]
  rfl

theorem same_finding_iff_barred : (placelessPrint "a|b" "c").codeHash = (placelessPrint "a" "b|c").codeHash ∧
      (placelessPrint "a|b" "c" = placelessPrint "a" "b|c" ↔ bars "R" = bars "R" ∧ bars "m.py" = bars "m.py" ∧
        bars "a|b" = bars "a") :=
  same_finding_iff fingerprint_barredSink fingerprint_barredSource text_barred

/-- A bar in the sink is taken for the one before the source. -/
theorem barred_confused :
    fingerprint "/p" "/p" (placeless "a|b" "c") (.text "m.py") (.list []) = .ok (placelessPrint "a|b" "c") ∧
      fingerprint "/p" "/p" (placeless "a" "b|c") (.text "m.py") (.list []) = .ok (placelessPrint "a" "b|c") ∧
      (placelessPrint "a|b" "c").text = (placelessPrint "a" "b|c").text ∧
      (placelessPrint "a|b" "c").sink ≠ (placelessPrint "a" "b|c").sink ∧
      (placelessPrint "a|b" "c").source ≠ (placelessPrint "a" "b|c").source :=
  ⟨fingerprint_barredSink, fingerprint_barredSource, text_barred, by decide, by decide⟩

/-! ## One call -/

namespace Baseline

def isNew (cwd root : String) (known : List String) (file lines finding : Value) : Bool :=
  match fingerprint cwd root finding file lines with
  | .ok p => !known.contains p.text
  | .error _ => true

/-- The keys of the findings before the first one that has no fingerprint. -/
def keysMet (cwd root : String) (file lines : Value) : List Value → List String
  | [] => []
  | f :: rest =>
    match fingerprint cwd root f file lines with
    | .ok p => p.text :: keysMet cwd root file lines rest
    | .error _ => []

@[simp] theorem cwd_meet (key : String) : (b.meet key).2.cwd = b.cwd := rfl

@[simp] theorem root_meet (key : String) : (b.meet key).2.root = b.root := rfl

@[simp] theorem known_meet (key : String) : (b.meet key).2.known = b.known := rfl

theorem mem_observed_meet {b : Baseline} {key k : String} : k ∈ (b.meet key).2.observed ↔ k ∈ b.observed ∨ k = key := by
  simp only [meet]
  split
  · next hmem =>
    have hmem := contains_iff_mem.mp hmem
    constructor
    · exact .inl
    · rintro (hk | rfl)
      · exact hk
      · exact hmem
  · simp

/-- Going through findings gives the new ones, unless one has no fingerprint, and notes those that were met. -/
theorem filterFrom_eq {α : Type} (finding : α → Value) (file lines : Value) (b : Baseline) (xs : List α) :
    (b.filterFrom finding file lines xs).1 = (xs.mapM fun x => fingerprint b.cwd b.root (finding x) file lines).map
        (fun _ => xs.filter fun x => isNew b.cwd b.root b.known file lines (finding x)) ∧
      ∃ observed, (b.filterFrom finding file lines xs).2 = { b with observed } ∧
        ∀ k, k ∈ observed ↔ k ∈ b.observed ∨ k ∈ keysMet b.cwd b.root file lines (xs.map finding) := by
  induction xs generalizing b with
  | nil => exact ⟨rfl, b.observed, rfl, by simp [keysMet]⟩
  | cons x xs ih =>
    rw [filterFrom, mapM_cons, map_cons, keysMet]
    cases hprint : fingerprint b.cwd b.root (finding x) file lines with
    | error e => exact ⟨rfl, b.observed, rfl, by simp⟩
    | ok p =>
      obtain ⟨hresult, observed, hstate, hobserved⟩ := ih (b.meet p.text).2
      simp only [cwd_meet, root_meet, known_meet] at hresult hobserved
      have hnew : isNew b.cwd b.root b.known file lines (finding x) = !b.known.contains p.text := by
        simp [isNew, hprint]
      refine ⟨?_, observed, hstate, ?_⟩
      · change Except.map _ ((b.meet p.text).2.filterFrom finding file lines xs).1 = _
        rw [hresult, filter_cons, hnew]
        cases xs.mapM fun x => fingerprint b.cwd b.root (finding x) file lines <;> rfl
      · intro k
        rw [hobserved, mem_observed_meet, mem_cons, or_assoc]

def countOf (cwd root : String) (known : List String) (file lines : Value) (findings : List Value) : BaselineCount :=
  ⟨findings.countP (isNew cwd root known file lines), findings.countP (!isNew cwd root known file lines ·)⟩

theorem fresh_add_existing_countOf (cwd root : String) (known : List String) (file lines : Value)
    (findings : List Value) : (countOf cwd root known file lines findings).fresh +
      (countOf cwd root known file lines findings).existing = findings.length := by
  have hlength := length_eq_countP_add_countP (isNew cwd root known file lines) (l := findings)
  simp only [Bool.not_eq_true, Bool.decide_eq_false] at hlength
  exact hlength.symm

theorem filter_fst (findings : List Value) (file lines : Value) :
    (b.filter findings file lines).1 = (findings.mapM (fingerprint b.cwd b.root · file lines)).map fun _ =>
      (findings.filter (isNew b.cwd b.root b.known file lines), countOf b.cwd b.root b.known file lines findings) := by
  obtain ⟨hresult, -⟩ := filterFrom_eq id file lines b findings
  have hcount := fresh_add_existing_countOf b.cwd b.root b.known file lines findings
  simp only [filter, filterBy]
  generalize b.filterFrom id file lines findings = r at hresult
  obtain ⟨r, b'⟩ := r
  obtain rfl : r = _ := hresult
  simp only [id_eq]
  cases findings.mapM (fingerprint b.cwd b.root · file lines) with
  | error e => rfl
  | ok prints =>
    simp only [Except.map, countOf, ← countP_eq_length_filter] at hcount ⊢
    rw [← hcount, Nat.add_sub_cancel_left]

/-- What a call of `filter` changes: the keys that were met and, if it returns, the counts. -/
theorem filter_snd (findings : List Value) (file lines : Value) :
    ∃ observed, (∀ k, k ∈ observed ↔ k ∈ b.observed ∨ k ∈ keysMet b.cwd b.root file lines findings) ∧
      (b.filter findings file lines).2 = let c := ((b.filter findings file lines).1.toOption.map (·.2)).getD {}
        { b with observed, fresh := b.fresh + c.fresh, existing := b.existing + c.existing } := by
  obtain ⟨-, observed, hstate, hobserved⟩ := filterFrom_eq id file lines b findings
  rw [map_id] at hobserved
  refine ⟨observed, hobserved, ?_⟩
  simp only [filter, filterBy]
  generalize b.filterFrom id file lines findings = r at hstate
  obtain ⟨r, b'⟩ := r
  obtain rfl : b' = _ := hstate
  cases r with
  | error e => rfl
  | ok l => rfl

/-! ## Runs of calls -/

inductive Call where
  | save (entries : List BaselineEntry)
  | filter (findings : List Value) (file lines : Value)

structure Usage where
  baseline : Baseline
  returned : List (List Value × BaselineCount) := []

def Usage.call (u : Usage) : Call → Usage
  | .save es => { u with baseline := u.baseline.save es }
  | .filter findings file lines =>
    let (result, baseline) := u.baseline.filter findings file lines
    { baseline, returned := u.returned ++ result.toOption.toList }

/-- A run that starts without a file. -/
def usage (cwd root : String) (calls : List Call) : Usage := calls.foldl .call { baseline := { cwd, root } }

example (cwd root : String) : load { cwd, root } none = .ok (.text "1.0", (usage cwd root []).baseline) := rfl

/-- The keys of the most recent save. -/
def lastSaved : List Call → List String := List.foldl (fun known c => match c with
  | .save es => es.map (·.key)
  | .filter .. => known) []

def met (cwd root : String) (calls : List Call) : List String := calls.flatMap fun
  | .save _ => []
  | .filter findings file lines => keysMet cwd root file lines findings

/-- A baseline agrees with the run that has led to it. -/
structure Reflects (cwd root : String) (calls : List Call) (u : Usage) : Prop where
  known : u.baseline.known = (lastSaved calls).eraseDups
  observed : ∀ k, k ∈ u.baseline.observed ↔ k ∈ met cwd root calls
  fresh : u.baseline.fresh = (u.returned.map (·.2.fresh)).sum
  existing : u.baseline.existing = (u.returned.map (·.2.existing)).sum
  cwd : u.baseline.cwd = cwd
  root : u.baseline.root = root

theorem Reflects.call (h : Reflects cwd root calls u) (c : Call) : Reflects cwd root (calls ++ [c]) (u.call c) := by
  cases c with
  | save es =>
    have hknown : lastSaved (calls ++ [.save es]) = es.map (·.key) := by simp [lastSaved]
    have hmet : met cwd root (calls ++ [.save es]) = met cwd root calls := by simp [met]
    exact { h with known := hknown ▸ rfl, observed := hmet ▸ h.observed }
  | filter findings file lines =>
    obtain ⟨observed, hobserved, hstate⟩ := u.baseline.filter_snd findings file lines
    have hsum : ∀ (f : BaselineCount → Nat) (r : Try (List Value × BaselineCount)), f {} = 0 →
        ((u.returned ++ r.toOption.toList).map fun x => f x.2).sum =
          (u.returned.map fun x => f x.2).sum + f ((r.toOption.map (·.2)).getD {}) := by
      intro f r hzero
      cases r <;> simp [Except.toOption, hzero]
    simp only [Usage.call]
    generalize u.baseline.filter findings file lines = r at hstate
    obtain ⟨result, b⟩ := r
    simp only at hstate
    subst hstate
    refine { h with known := ?_, observed := ?_, fresh := ?_, existing := ?_ }
    · simpa [lastSaved] using h.known
    · intro k
      simp [hobserved, h.cwd, h.root, h.observed, met]
    · rw [hsum (·.fresh) result rfl, ← h.fresh]
    · rw [hsum (·.existing) result rfl, ← h.existing]

theorem reflects_usage (cwd root : String) (calls : List Call) : Reflects cwd root calls (usage cwd root calls) := by
  induction calls using List.reverseRecOn with
  | nil => exact ⟨rfl, by simp [usage, met], rfl, rfl, rfl, rfl⟩
  | append_singleton calls c ih =>
    rw [usage, foldl_append]
    exact ih.call c

theorem card_eraseDups (l : List String) : l.eraseDups.length = l.toFinset.card := by
  rw [← toFinset_card_of_nodup (nodup_eraseDups l)]
  congr 1
  ext k
  simp

theorem Reflects.resolved (h : Reflects cwd root calls u) :
    u.baseline.resolved = ((lastSaved calls).toFinset \ (met cwd root calls).toFinset).card := by
  rw [Baseline.resolved, h.known, ← toFinset_card_of_nodup ((nodup_eraseDups _).filter _)]
  congr 1
  ext k
  simp [h.observed]

theorem isNew_eraseDups (cwd root : String) (known : List String) :
    isNew cwd root known.eraseDups = isNew cwd root known := by
  funext file lines finding
  simp [isNew]

/-- Findings that have just been saved are all known. -/
theorem filter_save_entries {b : Baseline} {now : Float} {findings : List Value}
    {es : List BaselineEntry} (h : b.entries now findings file lines = .ok es) :
    ((b.save es).filter findings file lines).1 = .ok ([], ⟨0, findings.length⟩) := by
  have hentry : ∀ f ∈ findings, ∃ p, fingerprint b.cwd b.root f file lines = .ok p ∧ p.text ∈ es.map (·.key) := by
    intro f hf
    obtain ⟨e, he, hentry⟩ := exists_of_mapM h hf
    obtain ⟨p, hp, heq⟩ := bind_eq_ok.mp hentry
    obtain rfl := Except.ok.inj heq
    exact ⟨p, hp, mem_map_of_mem he⟩
  have hknown : ∀ f ∈ findings, isNew b.cwd b.root (es.map (·.key)).eraseDups file lines f = false := by
    intro f hf
    obtain ⟨p, hp, hmem⟩ := hentry f hf
    simp [isNew, hp, mem_map.mp hmem]
  obtain ⟨prints, hprints⟩ := mapM_ok fun f hf => (hentry f hf).imp fun p hp => hp.1
  have hnone : findings.filter (isNew b.cwd b.root (es.map (·.key)).eraseDups file lines) = [] := by
    simpa [filter_eq_nil_iff] using hknown
  have hcount : countOf b.cwd b.root (es.map (·.key)).eraseDups file lines findings = ⟨0, findings.length⟩ := by
    have hfresh : (countOf b.cwd b.root (es.map (·.key)).eraseDups file lines findings).fresh = 0 :=
      countP_eq_zero.mpr (by simpa using hknown)
    rw [← fresh_add_existing_countOf b.cwd b.root (es.map (·.key)).eraseDups file lines findings, hfresh,
      Nat.zero_add, ← hfresh]
  rw [filter_fst]
  simp [save, hprints, Except.map, hnone, hcount]

/-- In every run, filtering returns the findings whose keys were not saved last, in their order, as soon as each has
a fingerprint, and counts them and the others. Nothing is left of findings that have just been saved. The summary has
the number of keys that were saved last, the sums of what was counted, and the number of keys saved last that no call
has met. -/
theorem partitioned_over_run (cwd root : String) (calls : List Call) : let u := usage cwd root calls
    let known := lastSaved calls
    (∀ findings file lines, (u.baseline.filter findings file lines).1 =
        (findings.mapM (fingerprint cwd root · file lines)).map fun _ =>
          (findings.filter (isNew cwd root known file lines), countOf cwd root known file lines findings)) ∧
      (∀ findings file lines, (countOf cwd root known file lines findings).fresh +
        (countOf cwd root known file lines findings).existing = findings.length) ∧
      (∀ now findings file lines es, u.baseline.entries now findings file lines = .ok es →
        ((u.baseline.save es).filter findings file lines).1 = .ok ([], ⟨0, findings.length⟩)) ∧
      u.baseline.summary = .obj [("total", .nat known.toFinset.card),
        ("new", .nat (u.returned.map (·.2.fresh)).sum), ("existing", .nat (u.returned.map (·.2.existing)).sum),
        ("resolved", .nat (known.toFinset \ (met cwd root calls).toFinset).card)] ∧
      (known.toFinset \ (met cwd root calls).toFinset).card ≤ known.toFinset.card := by
  have h := reflects_usage cwd root calls
  refine ⟨?_, fun findings file lines => fresh_add_existing_countOf .., fun now findings file lines es =>
    filter_save_entries, ?_, Finset.card_le_card Finset.sdiff_subset⟩
  · intro findings file lines
    rw [filter_fst, h.cwd, h.root, h.known]
    simp only [countOf, isNew_eraseDups]
  · rw [summary, h.resolved, h.known, card_eraseDups, h.fresh, h.existing]

/-- A finding that was new is saved twice, and after that it is known. -/
theorem saved_twice_known :
    let b := (usage "/p" "/p" [.filter [placeless "a|b" "c"] (.text "m.py") (.list [])]).baseline
    let findings := [placeless "a|b" "c", placeless "a|b" "c"]
    let entry : BaselineEntry := { print := placelessPrint "a|b" "c", created := moment 0 }
    b.entries 0 findings (.text "m.py") (.list []) = .ok [entry, entry] ∧
      ((b.save [entry, entry]).filter findings (.text "m.py") (.list [])).1 = .ok ([], ⟨0, 2⟩) := by
  have hentries : (usage "/p" "/p" [.filter [placeless "a|b" "c"] (.text "m.py") (.list [])]).baseline.entries 0
      [placeless "a|b" "c", placeless "a|b" "c"] (.text "m.py") (.list []) = .ok
      [{ print := placelessPrint "a|b" "c", created := moment 0 },
        { print := placelessPrint "a|b" "c", created := moment 0 }] := rfl
  exact ⟨hentries, (partitioned_over_run _ _ _).2.2.1 _ _ _ _ _ hentries⟩

end Baseline

end SecScan.Scan
