import SecScan.Proofs.Llm.Cache
import SecScan.Proofs.Report.Sections
import SecScan.Report.Sarif

/-!
What the report for other tools holds: one result for each finding that names a check, in the order of files, blocks
and findings, and one rule for each check that has a result (`findings_reported`). A result is unverified unless the
model's last item for its check in the same block says otherwise. A fix deletes from where the finding begins; of the
new code only the length of the first line matters, which moves the end if it reaches farther (`deletedRegion_grows`).
-/

namespace SecScan.Report

open List Value

variable {l : List Value} {block finding metadata v : Value} {path : String} {m m' : Entries}

/-! ## The findings to report -/

/-- What is met when going through a value; nothing if it cannot be gone through. -/
def partsOf (v : Value) : List Value := v.each.toOption.getD []

theorem partsOf_eq (h : v.each = .ok l) : partsOf v = l := by
  rw [partsOf, h]
  rfl

def checkOf (v : Value) : Value := v.sub "check_id"

def namesCheck (v : Value) : Bool := (checkOf v).truthy

structure Site where
  path : String
  block : Value
  finding : Value

def sitesIn (path : String) (block : Value) : List Site :=
  ((partsOf (findingsOf block)).filter namesCheck).map fun finding => { path, block, finding }

def sitesAt (path : String) (file : Value) : List Site :=
  if file.has "error" then []
  else (partsOf ((file.getD "structure" (.obj [])).getD "blocks" (.list []))).flatMap (sitesIn path)

/-- The findings that name a check, in the files without an error. -/
def sitesOf (results : Value) : List Site := results.fields.flatMap fun (path, file) => sitesAt path file

def resultsIn (doc : Value) : List Value := (doc.listAt "runs").flatMap (·.listAt "results")

/-- The checks that a report has rules for. -/
def rulesIn (doc : Value) : List Value :=
  (doc.listAt "runs").flatMap fun run => (((run.sub "tool").sub "driver").listAt "rules").map (·.sub "id")

def itemsOf (block : Value) : List Value := (partsOf (insightsOf block)).flatMap fun i => partsOf (analysisIn i)

def itemsFor (block check : Value) : List Value :=
  (itemsOf block).filter fun item => namesCheck item && (checkOf item).sameKey check

/-- A verdict that is empty or says that there is none. -/
def ReadsUnverified (verdict : Value) : Prop :=
  verdict.truthy = false ∨ ∃ s, verdict = .text s ∧ Text.strip (Text.replace (Text.lower s) "_" " ") = "unverified"

structure Reports (site : Site) (entry : Value) : Prop where
  rule : entry.sub "ruleId" = checkOf site.finding
  place : entry.sub "locations" = .list [.obj [("physicalLocation", .obj
    [("artifactLocation", .obj [("uri", .text (Text.replace site.path "\\" "/"))]),
      ("region", .obj [("startLine", site.finding.getD "line" (.int 1)),
        ("startColumn", site.finding.getD "column" (.int 1))])])]]
  verdict : (entry.sub "properties").sub "verdict" = .text "unverified" ↔
    ∀ item, (itemsFor site.block (checkOf site.finding)).getLast? = some item →
      ReadsUnverified (item.getD "verdict" (.text "needs_review"))

/-! ## The items of a block -/

theorem eachAt_eq_ok {k : String} (h : v.eachAt k = .ok l) : partsOf (v.getD k (.list [])) = l := by
  obtain ⟨x, hx, heach⟩ := bind_eq_ok.mp h
  obtain ⟨-, rfl⟩ := field_eq_ok hx
  exact partsOf_eq heach

def entered (items : List Value) : Entries :=
  ((items.filter namesCheck).map fun item => (checkOf item, item)).reverse

theorem entered_append (items more : List Value) : entered (items ++ more) = entered more ++ entered items := by
  simp [entered]

theorem enterItem_eq_ok {item : Value} (h : enterItem m item = .ok m') : m' = entered [item] ++ m := by
  obtain ⟨id, hid, h⟩ := bind_eq_ok.mp h
  obtain ⟨-, rfl⟩ := field_eq_ok hid
  split_ifs at h with hnone hkey
  · cases h
    have hname : namesCheck item = false := by simpa [namesCheck, checkOf, sub] using hnone
    simp [entered, hname]
  · cases h
  · cases h
    have hname : namesCheck item = true := by simpa [namesCheck, checkOf, sub] using hnone
    simp [entered, hname, checkOf, sub]

theorem foldlM_enter {α : Type} {f : Entries → α → Try Entries}
    {items : α → List Value} (hstep : ∀ m m' a, f m a = .ok m' → m' = entered (items a) ++ m) {l : List α}
    (h : l.foldlM f m = .ok m') : m' = entered (l.flatMap items) ++ m := by
  induction l generalizing m with
  | nil =>
    cases h
    rfl
  | cons a l ih =>
    rw [foldlM_cons] at h
    obtain ⟨m1, hm1, h⟩ := bind_eq_ok.mp h
    rw [ih h, hstep _ _ _ hm1, flatMap_cons, entered_append, append_assoc]

theorem insightItems_eq_ok (h : insightItems block = .ok m) : m = entered (itemsOf block) := by
  obtain ⟨insights, hinsights, h⟩ := bind_eq_ok.mp h
  have hstep : ∀ (m m' : Entries) (i : Value),
      (do (← i.eachAt "analysis").foldlM enterItem m) = .ok m' → m' = entered (partsOf (analysisIn i)) ++ m := by
    intro m m' i hi
    obtain ⟨items, hitems, hi⟩ := bind_eq_ok.mp hi
    have hitem : ∀ m m' item, enterItem m item = .ok m' → m' = entered [item] ++ m := fun _ _ _ => enterItem_eq_ok
    rw [analysisIn, eachAt_eq_ok hitems, foldlM_enter hitem hi, flatMap_singleton']
  rw [foldlM_enter hstep h, append_nil, itemsOf, insightsOf, eachAt_eq_ok hinsights]

theorem find?_entered (block check : Value) : (entered (itemsOf block)).find? (·.1.sameKey check) =
      (itemsFor block check).getLast?.map fun item => (checkOf item, item) := by
  rw [← List.head?_filter, entered, filter_reverse, List.head?_reverse, filter_map, List.getLast?_map, filter_filter]
  simp only [itemsFor, Function.comp_def, Bool.and_comm]

/-! ## Results -/

theorem normalVerdict_eq_iff (s : String) : normalVerdict s = "unverified" ↔ ReadsUnverified (.text s) := by
  unfold normalVerdict ReadsUnverified
  split_ifs with hempty
  · simp [truthy, String.isEmpty_iff.mp hempty]
  · have hne : s ≠ "" := fun h => hempty (String.isEmpty_iff.mpr h)
    simp [truthy, hne]

theorem verdictOf_eq_ok {item : Value} {verdict : String} (h : Judgement.verdictOf item = .ok verdict) :
    verdict = "unverified" ↔ ReadsUnverified (item.getD "verdict" (.text "needs_review")) := by
  unfold Judgement.verdictOf at h
  generalize item.getD "verdict" (.text "needs_review") = v at h
  cases v with
  | text s =>
    cases h
    exact normalVerdict_eq_iff s
  | _ =>
    simp only at h
    split_ifs at h with htruthy
    cases h
    simp [ReadsUnverified, Bool.eq_false_iff.mpr htruthy]

theorem judgementOf_eq_ok {check : Value} {j : Judgement}
    (h : judgementOf (entered (itemsOf block)) check finding = .ok j) : j.verdict = "unverified" ↔
      ∀ item, (itemsFor block check).getLast? = some item →
        ReadsUnverified (item.getD "verdict" (.text "needs_review")) := by
  unfold judgementOf at h
  rw [find?_entered] at h
  cases hlast : (itemsFor block check).getLast? with
  | none =>
    rw [hlast] at h
    cases h
    simp [Judgement.ofFinding]
  | some item =>
    rw [hlast] at h
    obtain ⟨verdict, hverdict, h⟩ := bind_eq_ok.mp h
    obtain ⟨confidence, -, h⟩ := bind_eq_ok.mp h
    cases h
    simpa using verdictOf_eq_ok hverdict

theorem reports_resultDocument (site : Site) {j : Judgement}
    (h : judgementOf (entered (itemsOf site.block)) (checkOf site.finding) site.finding = .ok j) (metadata : Value)
    (fixes : Option Value) :
    Reports site (resultDocument site.path metadata (checkOf site.finding) site.finding j fixes) where
  rule := rfl
  place := rfl
  verdict := by
    rw [← judgementOf_eq_ok h]
    have hverdict : ((resultDocument site.path metadata (checkOf site.finding) site.finding j fixes).sub
        "properties").sub "verdict" = .text j.verdict := rfl
    rw [hverdict, text.injEq]

theorem resultOf_eq_ok {r : Option Value} (h : resultOf path metadata (entered (itemsOf block)) finding = .ok r) :
    (namesCheck finding = false ∧ r = none) ∨
      (namesCheck finding = true ∧ ∃ entry, r = some entry ∧ Reports { path, block, finding } entry) := by
  unfold resultOf at h
  obtain ⟨id, hid, h⟩ := bind_eq_ok.mp h
  obtain ⟨-, rfl⟩ := field_eq_ok hid
  split_ifs at h with hnone hkey
  · cases h
    exact .inl ⟨by simpa [namesCheck, checkOf, sub] using hnone, rfl⟩
  · cases h
  · obtain ⟨j, hj, h⟩ := bind_eq_ok.mp h
    obtain ⟨fixes, -, h⟩ := bind_eq_ok.mp h
    cases h
    exact .inr ⟨by simpa [namesCheck, checkOf, sub] using hnone, _, rfl,
      reports_resultDocument { path, block, finding } hj metadata fixes⟩

theorem reports_filterMap {findings : List Value} {results : List (Option Value)}
    (h : List.Forall₂ (fun f r => resultOf path metadata (entered (itemsOf block)) f = .ok r) findings results) :
    List.Forall₂ Reports ((findings.filter namesCheck).map fun finding => ⟨path, block, finding⟩)
      (results.filterMap id) := by
  induction h with
  | nil => exact .nil
  | cons hr _ ih =>
    rcases resultOf_eq_ok hr with ⟨hname, rfl⟩ | ⟨hname, entry, rfl, hentry⟩
    · rw [filter_cons_of_neg (by simp [hname])]
      exact ih
    · rw [filter_cons_of_pos hname]
      exact .cons hentry ih

theorem blockResults_eq_ok
    (h : blockResults path metadata block = .ok l) : List.Forall₂ Reports (sitesIn path block) l := by
  unfold blockResults at h
  obtain ⟨findings, hfindings, h⟩ := bind_eq_ok.mp h
  obtain ⟨insights, hinsights, h⟩ := bind_eq_ok.mp h
  obtain ⟨each, heach, h⟩ := bind_eq_ok.mp h
  obtain ⟨results, hresults, h⟩ := bind_eq_ok.mp h
  cases h
  obtain ⟨-, rfl⟩ := field_eq_ok hfindings
  obtain rfl := insightItems_eq_ok hinsights
  rw [sitesIn, findingsOf, partsOf_eq heach]
  exact reports_filterMap (mapM_eq_ok.mp hresults)

theorem forall₂_flatten {α β γ : Type} {R : β → γ → Prop} {f : α → Try (List γ)} {g : α → List β}
    (hstep : ∀ a r, f a = .ok r → List.Forall₂ R (g a) r) {l : List α} {rs : List (List γ)} (h : l.mapM f = .ok rs) :
    List.Forall₂ R (l.flatMap g) rs.flatten := by
  rw [mapM_eq_ok] at h
  induction h with
  | nil => exact .nil
  | cons hr _ ih => exact rel_append (hstep _ _ hr) ih

theorem fileBlocks_eq_ok {file : Value} (h : fileBlocks file = .ok l) :
    file.isMap = true ∧ partsOf ((file.getD "structure" (.obj [])).getD "blocks" (.list [])) = l := by
  obtain ⟨x, hx, h⟩ := bind_eq_ok.mp h
  obtain ⟨hmap, rfl⟩ := field_eq_ok hx
  exact ⟨hmap, eachAt_eq_ok h⟩

theorem fileResults_eq_ok {file : Value}
    (h : fileResults metadata path file = .ok l) : List.Forall₂ Reports (sitesAt path file) l := by
  unfold fileResults at h
  obtain ⟨mentioned, hmentioned, h⟩ := bind_eq_ok.mp h
  cases mentioned with
  | true =>
    cases h
    have hnone : sitesAt path file = [] := by
      cases hmap : file.isMap with
      | true =>
        rw [mentions_of_isMap hmap] at hmentioned
        rw [sitesAt, if_pos (Except.ok.inj hmentioned)]
      | false =>
        cases file with
        | map es => cases hmap
        | _ => rfl
    rw [hnone]
    exact .nil
  | false =>
    obtain ⟨blocks, hblocks, h⟩ := bind_eq_ok.mp h
    obtain ⟨parts, hparts, h⟩ := bind_eq_ok.mp h
    cases h
    obtain ⟨hmap, hblocks⟩ := fileBlocks_eq_ok hblocks
    rw [mentions_of_isMap hmap] at hmentioned
    rw [sitesAt, Except.ok.inj hmentioned, if_neg (by decide), hblocks]
    exact forall₂_flatten (fun _ _ => blockResults_eq_ok) hparts

/-- The results of all files, and the document that they are put into. -/
theorem sarif_eq_ok {results doc : Value} (h : sarif results metadata = .ok doc) :
    List.Forall₂ Reports (sitesOf results) (resultsIn doc) ∧ rulesIn doc = rulesOf (resultsIn doc) := by
  unfold sarif at h
  obtain ⟨files, hfiles, h⟩ := bind_eq_ok.mp h
  obtain ⟨parts, hparts, h⟩ := bind_eq_ok.mp h
  have hdoc := Except.ok.inj h
  have hfields : files = results.fields := by
    cases results with
    | map es => exact (Except.ok.inj hfiles).symm
    | _ => cases hfiles
  have hresults : resultsIn doc = parts.flatten := hdoc ▸ append_nil _
  have hrules : rulesIn doc = ((rulesOf parts.flatten).map ruleOf).map (·.sub "id") := hdoc ▸ append_nil _
  rw [hresults, hrules, map_map]
  refine ⟨?_, map_id _⟩
  rw [sitesOf, ← hfields]
  exact forall₂_flatten (fun _ _ => fileResults_eq_ok) hparts

/-! ## Rules -/

/-- Each rule is for the check of a result, each result's check has its rule, and no rule is there twice. -/
structure Covers (rules ids : List Value) : Prop where
  distinct : rules.Pairwise fun a b => a.sameKey b = false
  used : ∀ id ∈ rules, id ∈ ids
  defined : ∀ id ∈ ids, id ∈ rules ∨ ∃ rule ∈ rules, rule.sameKey id = true

theorem Covers.enter {rules ids : List Value} (h : Covers rules ids) (id : Value) :
    Covers (if rules.any (·.sameKey id) then rules else rules ++ [id]) (ids ++ [id]) := by
  split_ifs with hany
  · refine ⟨h.distinct, fun x hx => mem_append_left _ (h.used x hx), fun x hx => ?_⟩
    rcases mem_append.mp hx with hx | hx
    · exact h.defined x hx
    · obtain rfl := mem_singleton.mp hx
      exact .inr (any_eq_true.mp hany)
  · simp only [any_eq_true, not_exists, not_and, Bool.not_eq_true] at hany
    refine ⟨?_, fun x hx => ?_, fun x hx => ?_⟩
    · rw [pairwise_append]
      refine ⟨h.distinct, pairwise_singleton _ _, fun a ha b hb => ?_⟩
      obtain rfl := mem_singleton.mp hb
      exact hany a ha
    · exact mem_append.mpr ((mem_append.mp hx).imp_left (h.used x))
    · rcases mem_append.mp hx with hx | hx
      · exact (h.defined x hx).imp (mem_append_left _) fun ⟨rule, hrule, hsame⟩ =>
          ⟨rule, mem_append_left _ hrule, hsame⟩
      · exact .inl (mem_append_right _ hx)

theorem covers_rulesOf (results : List Value) : Covers (rulesOf results) (results.map (·.sub "ruleId")) := by
  unfold rulesOf
  generalize results.map (·.sub "ruleId") = ids
  induction ids using List.reverseRecOn with
  | nil => exact ⟨.nil, nofun, nofun⟩
  | append_singleton ids id ih =>
    rw [foldl_append]
    exact ih.enter id

theorem sameKey_text {s : String} : v.sameKey (.text s) = true ↔ v = .text s := by simp [sameKey, isNaN, same_text]

/-- Every finding that names a check, in a file without an error, has one result, in the order of files, blocks and
findings, and there are no others. A result is unverified if and only if no item for its check was given for its
block, or the last one is so. The rules are for different checks, each for one of a result, and each result's check
has its rule, literally so if it is a text. -/
theorem findings_reported {results metadata doc : Value} (h : sarif results metadata = .ok doc) :
    List.Forall₂ Reports (sitesOf results) (resultsIn doc) ∧
      Covers (rulesIn doc) ((resultsIn doc).map (·.sub "ruleId")) ∧
      ∀ s, .text s ∈ (resultsIn doc).map (·.sub "ruleId") ↔ .text s ∈ rulesIn doc := by
  obtain ⟨hresults, hrules⟩ := sarif_eq_ok h
  have hcovers : Covers (rulesIn doc) ((resultsIn doc).map (·.sub "ruleId")) := hrules ▸ covers_rulesOf _
  refine ⟨hresults, hcovers, fun s => ⟨fun hs => ?_, hcovers.used _⟩⟩
  rcases hcovers.defined _ hs with hs | ⟨rule, hrule, hsame⟩
  · exact hs
  · exact sameKey_text.mp hsame ▸ hrule

/-- A file with an error, and one where the model takes its verdict back. -/
def overruled : Value :=
  .obj [("a.py", .obj [("error", .text "unreadable")]), ("m.py", .obj [("structure", .obj [("blocks", .list [.obj
      [("security_findings", .list [.obj [("check_id", .text "c")], .obj [("check_id", .text "")],
        .obj [("check_id", .text "d"), ("line", .int 3)], .obj [("check_id", .text "c")]]),
      ("llm_insights", .list [.obj [("analysis", .list
        [.obj [("check_id", .text "c"), ("verdict", .text "true positive")],
          .obj [("check_id", .text "c"), ("verdict", .text "")]])]])]])])])]

theorem overruled_reported :
    ∃ doc, sarif overruled .null = .ok doc ∧ List.Forall₂ Reports (sitesOf overruled) (resultsIn doc) ∧
      Covers (rulesIn doc) ((resultsIn doc).map (·.sub "ruleId")) ∧
      ∀ s, .text s ∈ (resultsIn doc).map (·.sub "ruleId") ↔ .text s ∈ rulesIn doc := by
  have hok : (sarif overruled .null).isOk = true := by decide +kernel
  cases h : sarif overruled .null with
  | error e =>
    rw [h] at hok
    cases hok
  | ok doc => exact ⟨doc, rfl, findings_reported h⟩

example : (sitesOf overruled).map (checkOf ·.finding) = [.text "c", .text "d", .text "c"] := rfl

/-! ## The regions of fixes -/

/-- In its line the finding itself begins and ends at these columns. -/
structure Spans (finding : Value) (c e : Int) : Prop where
  begins : Number.ofValue? (beginOf finding) = some (.whole c)
  ends : ∃ own, endOf finding = .ok own ∧ Number.ofValue? own = some (.whole e)

/-- The end of what stands between two columns, or of code in its place if that is farther. -/
def lastColumn (c e : Int) (n : Nat) : Int := if n = 0 then e else max e (c + n)

theorem lt_whole (a b : Int) : (Number.whole a).lt (.whole b) = true ↔ a < b := by
  rw [Number.lt, Number.order, beq_iff_eq, Option.some.injEq]
  exact compare_lt_iff_lt

theorem endReached_eq {own : Value} {c e : Int}
    (hbegin : Number.ofValue? (beginOf finding) = some (.whole c)) (hend : endOf finding = .ok own)
    (hown : Number.ofValue? own = some (.whole e)) (n : Nat) :
    endReached finding n = .ok (if lastColumn c e n = e then own else .int (lastColumn c e n)) := by
  refine bind_eq_ok.mpr ⟨own, hend, ?_⟩
  by_cases hn : n = 0
  · simp [hn, lastColumn]
    rfl
  · rw [if_neg (by simpa using hn)]
    refine bind_eq_ok.mpr ⟨.whole (c + n), by rw [shifted, hbegin]; rfl, ?_⟩
    simp only [hown, lt_whole, lastColumn, if_neg hn]
    by_cases hfar : e < c + n
    · rw [if_pos hfar, if_neg (by omega), max_eq_right hfar.le]
      rfl
    · rw [if_neg hfar, if_pos (by omega)]
      rfl

theorem deletedRegion_grows (finding : Value) (code code' : Option String) :
    (∀ r r', deletedRegion finding code = .ok r → deletedRegion finding code' = .ok r' →
      ∀ k, k ≠ "endColumn" → r.sub k = r'.sub k) ∧
    (reach code = reach code' → deletedRegion finding code = deletedRegion finding code') ∧
    ∀ c e, Spans finding c e → ∃ r r', deletedRegion finding code = .ok r ∧ deletedRegion finding code' = .ok r' ∧
      Number.ofValue? (r.sub "endColumn") = some (.whole (lastColumn c e (reach code))) ∧
      (r = r' ↔ lastColumn c e (reach code) = lastColumn c e (reach code')) := by
  refine ⟨fun r r' hr hr' k hk => ?_, fun h => ?_, fun c e ⟨hbegin, own, hend, hown⟩ => ?_⟩
  · obtain ⟨u, -, hr⟩ := bind_eq_ok.mp hr
    obtain ⟨u', -, hr'⟩ := bind_eq_ok.mp hr'
    cases hr
    cases hr'
    have hkey : (k == "endColumn") = false := beq_false_of_ne hk
    simp only [Value.sub, Value.getD, Value.get?_obj, List.lookup_cons, hkey]
  · rw [deletedRegion, deletedRegion, h]
  · have hvalue : ∀ n, Number.ofValue? (if lastColumn c e n = e then own else .int (lastColumn c e n)) =
        some (.whole (lastColumn c e n)) := by
      intro n
      split_ifs with hsame
      · rw [hown, hsame]
      · rfl
    refine ⟨_, _, bind_eq_ok.mpr ⟨_, endReached_eq hbegin hend hown (reach code), rfl⟩,
      bind_eq_ok.mpr ⟨_, endReached_eq hbegin hend hown (reach code'), rfl⟩, hvalue _, fun h => ?_, fun h => ?_⟩
    · have hends := congrArg (fun r => Number.ofValue? (r.sub "endColumn")) h
      exact Number.whole.inj (Option.some.inj ((hvalue _).symm.trans (hends.trans (hvalue _))))
    · rw [h]

/-- A finding without a stated end has one column; a fix in its place takes as many as its first line. -/
theorem longer_code_deletes_more : let finding : Value := .obj [("line", .int 10), ("column", .int 5)]
    (deletedRegion finding none).map (·.sub "endColumn") = .ok (.int 6) ∧
      (deletedRegion finding (some "safe_code()")).map (·.sub "endColumn") = .ok (.int 16) := ⟨rfl, rfl⟩

end SecScan.Report
