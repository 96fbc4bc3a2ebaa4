import SecScan.Pipeline.Review
import SecScan.Proofs.Keyed

/-!
What is remembered of the answers of a model. An answer that was kept is found again by the same prompt,
whatever is reviewed in between (`Later.decision?_eq`). The analysis that is recalled is the one in the
answer as it stands there, while the analysis that was attached when the answer came has the names that
mean the same filled in; so the two are equal exactly if there is nothing to fill in (`recalled_after_review`).
-/

namespace SecScan.Pipeline

open Reviewer Llm
open Knowledge (Librarian DecisionRow Cell promptHash recalledAnalysis)
open List Value
open SecScan.Flow (Ssa)

variable {l l' : Librarian} {checkId prompt : Value} {d : DecisionRow} {r' : Reviewer}
  {x : Try (Option Value)}

/-! ## Names that mean the same -/

section

variable {v : Value} (hmap : v.isMap = true)
include hmap

variable (target source : String)

theorem isMap_copyField : (copyField target source v).isMap = true := by
  unfold copyField
  split
  · cases v with
    | map es => rfl
    | _ => cases hmap
  · exact hmap

theorem has_copyField {k : String} (h : v.has k = true) : (copyField target source v).has k = true := by
  unfold copyField
  split
  · rw [has, get?_put hmap]
    split
    · rfl
    · exact h
  · exact h

/-- Copying a field changes nothing exactly if the field is there or there is nothing to copy. -/
theorem copyField_eq_self_iff :
    copyField target source v = v ↔ v.has target = true ∨ (v.sub source).truthy = false := by
  constructor
  · intro h
    by_contra hmissing
    simp only [not_or, Bool.not_eq_true, Bool.not_eq_false] at hmissing
    have hput : v.put target (v.sub source) = v := by simpa [copyField, hmissing.1, hmissing.2] using h
    have hthere := get?_put hmap target target (v.sub source)
    rw [hput, if_pos rfl] at hthere
    rw [has, hthere] at hmissing
    cases hmissing.1
  · rintro (h | h) <;> simp [copyField, h]

theorem copyField_eq_self_of_has {target source : String}
    (h : (copyField target source v).has target = true → v.has target = true) : copyField target source v = v := by
  rw [copyField_eq_self_iff hmap]
  by_contra hmissing
  simp only [not_or, Bool.not_eq_true, Bool.not_eq_false] at hmissing
  have hput : copyField target source v = v.put target (v.sub source) := by simp [copyField, hmissing.1, hmissing.2]
  rw [hput, has, get?_put hmap, if_pos rfl, hmissing.1] at h
  cases h rfl

end

/-- The names that are filled in, each with the name that it is copied from. -/
def synonyms : List (String × String) :=
  [("fix_suggestion", "remediation"), ("remediation", "fix_suggestion"), ("secure_code_snippet", "secure_code")]

def IsFilled (item : Value) : Prop :=
  item.isMap = true → ∀ p ∈ synonyms, item.has p.1 = true ∨ (item.sub p.2).truthy = false

theorem completed_eq_self_iff (item : Value) : completed item = item ↔ IsFilled item := by
  unfold completed IsFilled
  split
  · next hmap =>
    have hmap1 := isMap_copyField hmap "fix_suggestion" "remediation"
    have hmap2 := isMap_copyField hmap1 "remediation" "fix_suggestion"
    simp only [synonyms, mem_cons, not_mem_nil, or_false, forall_eq_or_imp, forall_eq, hmap, forall_const]
    constructor
    · intro h
      -- a field that a step enters is there to the end, so no step has entered one
      have hfix : copyField "fix_suggestion" "remediation" item = item := by
        apply copyField_eq_self_of_has hmap
        intro hentered
        rw [← h]
        exact has_copyField hmap2 _ _ (has_copyField hmap1 _ _ hentered)
      rw [hfix] at h hmap2
      have hremediation : copyField "remediation" "fix_suggestion" item = item := by
        apply copyField_eq_self_of_has hmap
        intro hentered
        rw [← h]
        exact has_copyField hmap2 _ _ hentered
      rw [hremediation] at h
      exact ⟨(copyField_eq_self_iff hmap _ _).mp hfix, (copyField_eq_self_iff hmap _ _).mp hremediation,
        (copyField_eq_self_iff hmap _ _).mp h⟩
    · rintro ⟨hfix, hremediation, hsnippet⟩
      rw [(copyField_eq_self_iff hmap _ _).mpr hfix, (copyField_eq_self_iff hmap _ _).mpr hremediation,
        (copyField_eq_self_iff hmap _ _).mpr hsnippet]
  · next hmap => simp [hmap]

example : (completed (.obj [("remediation", .text "x")])).has "fix_suggestion" = true := by decide +kernel

/-- An analysis with all names filled in; what is no list counts as none. -/
def completedAnalysis : Value → Value
  | .list items => .list (items.map completed)
  | _ => .list []

theorem completedAnalysis_eq_self_iff (v : Value) :
    completedAnalysis v = v ↔ ∃ items, v = .list items ∧ ∀ i ∈ items, IsFilled i := by
  cases v with
  | list items =>
    simp only [completedAnalysis, Value.list.injEq, exists_eq_left', ← completed_eq_self_iff]
    constructor
    · intro h
      exact map_inj_left.mp (h.trans (map_id' items).symm)
    · intro h
      exact (map_congr_left h).trans (map_id' items)
  | _ => simp [completedAnalysis]

/-- What is read out of an answer when it comes, by what is recalled of it. -/
theorem analysisOf_text (content : String) :
    (analysisOf (.text content)).getD (.list []) = completedAnalysis (recalledAnalysis content) := by
  unfold analysisOf recalledAnalysis
  simp only []
  cases Json.read (unfenceOnce content) with
  | error e => rfl
  | ok v =>
    cases v with
    | map es =>
      simp only [Value.getD]
      cases (Value.map es).get? "analysis" with
      | none => rfl
      | some x => cases x <;> rfl
    | _ => rfl

/-! ## Decisions -/

theorem row_eq_ok {vs : List Value} {cs : List Cell} (h : Cell.row vs = .ok cs) :
    List.Forall₂ (fun v c => ∃ i, Cell.of i v = .ok c) vs cs := by
  have hrow : ∀ (vs : List Value) (k : Nat) (cs : List Cell), (vs.zipIdx k).mapM (fun x => Cell.of x.2 x.1) = .ok cs →
      List.Forall₂ (fun v c => ∃ i, Cell.of i v = .ok c) vs cs := by
    intro vs
    induction vs with
    | nil =>
      intro k cs h
      rw [mapM_eq_ok, zipIdx_nil, forall₂_nil_left_iff] at h
      rw [h]
      exact .nil
    | cons v vs ih =>
      intro k cs h
      rw [mapM_eq_ok, zipIdx_cons, forall₂_cons_left_iff] at h
      obtain ⟨c, cs, hc, hcs, rfl⟩ := h
      exact .cons ⟨k, hc⟩ (ih (k + 1) cs (mapM_eq_ok.mpr hcs))
  exact hrow vs 1 cs h

/-- What keeping an answer does: under the prompt it takes the place of what was there. -/
theorem store_eq_ok {content analysis model snippet : Value}
    (h : l.store prompt content analysis model snippet checkId = .ok l') :
    ∃ d : DecisionRow, promptHash prompt = .ok d.hash ∧ (∃ i, Cell.of i content = .ok d.response)
      ∧ l'.decisions = l.decisions.filter (·.hash != d.hash) ++ [d] := by
  unfold Librarian.store at h
  obtain ⟨hash, hhash, h⟩ := bind_eq_ok.mp h
  obtain ⟨snippetHash, -, h⟩ := bind_eq_ok.mp h
  obtain ⟨first, -, h⟩ := bind_eq_ok.mp h
  obtain ⟨cs, hrow, h⟩ := bind_eq_ok.mp h
  have hcells := row_eq_ok hrow
  simp only [forall₂_cons_left_iff, forall₂_nil_left_iff] at hcells
  obtain ⟨_, _, -, ⟨_, _, -, ⟨_, _, -, ⟨_, _, -, ⟨_, _, -, ⟨_, _, -, ⟨_, _, -, ⟨_, _, hresponse,
    ⟨_, _, -, rfl, rfl⟩, rfl⟩, rfl⟩, rfl⟩, rfl⟩, rfl⟩, rfl⟩, rfl⟩, rfl⟩ := hcells
  cases h
  exact ⟨⟨hash, _, _, _, _, _, _, _⟩, hhash, hresponse, rfl⟩

theorem decision?_of_decisions (h : l'.decisions = l.decisions.filter (·.hash != d.hash) ++ [d]) (hash : String) :
    l'.decision? hash = if hash = d.hash then some d else l.decision? hash := by
  rw [Librarian.decision?, h, List.find?_append]
  by_cases heq : hash = d.hash
  · subst heq
    have hnone : (l.decisions.filter (·.hash != d.hash)).find? (·.hash == d.hash) = none := by
      rw [List.find?_eq_none]
      intro e he
      simpa using (mem_filter.mp he).2
    simp [hnone]
  · have hsame : (l.decisions.filter (·.hash != d.hash)).find? (·.hash == hash) = l.decision? hash := by
      rw [List.find?_filter, Librarian.decision?]
      congr 1
      funext e
      by_cases he : e.hash = hash
      · simp [he, heq]
      · simp [he]
    have hlast : [d].find? (·.hash == hash) = none := by simp [Ne.symm heq]
    rw [hsame, hlast, if_neg heq, Option.or_none]

/-- What was decided on a prompt is what is found by it. -/
theorem query_of_decision? (hhash : promptHash prompt = .ok d.hash)
    (h : l.decision? d.hash = some d) (checkId snippet : Value) :
    l.query prompt checkId snippet = .ok (some d.insight) := by
  simp only [Librarian.query, Librarian.remembered, hhash, bind, Except.bind, h]
  rfl

theorem decision?_of_query {snippet : Value} {hash : String}
    (hhash : promptHash prompt = .ok hash) (h : l.query prompt checkId snippet = .ok none) :
    l.decision? hash = none := by
  cases hd : l.decision? hash with
  | none => rfl
  | some d =>
    simp only [Librarian.query, Librarian.remembered, hhash, bind, Except.bind, hd] at h
    cases h

/-! ## Reviews -/

/-- All that asking a model can come to, and what is known afterwards. -/
inductive Consults (l : Librarian) (provider model snippet : String) (prompt checkId : Value) :
    Try (Option Value) → Librarian → Prop where
  | failed (e : Fault) : Consults l provider model snippet prompt checkId (.error e) l
  /-- A response without content, or with an error, is not kept. -/
  | unkept {response : Value}
      (hresponse : ((response.sub "content").truthy && !(response.sub "error").truthy) = false) :
      Consults l provider model snippet prompt checkId (.ok (some (insightOf provider model snippet response))) l
  | kept {response : Value} {l' : Librarian}
      (hstore : l.store prompt (response.sub "content") ((analysisOf (response.sub "content")).getD (.list []))
        (.text model) (.text snippet) checkId = .ok l') :
      Consults l provider model snippet prompt checkId (.ok (some (insightOf provider model snippet response))) l'

section

variable {r : Reviewer} {now : Float} {provider file : String} {lines : List String} {s : Ssa} {site : Site}

theorem consults_consult {d : Llm.Decision} {snippet : String}
    (h : r.consult now provider d prompt snippet checkId = (x, r')) :
    r'.asked = r.asked ++ [prompt]
      ∧ Consults r.librarian provider r.client.model snippet prompt checkId x r'.librarian := by
  unfold consult ask at h
  cases hreplies : r.replies with
  | nil =>
    simp only [hreplies] at h
    cases h
    exact ⟨rfl, .failed _⟩
  | cons a rest =>
    cases a with
    | error e =>
      simp only [hreplies] at h
      cases h
      exact ⟨rfl, .failed _⟩
    | ok response =>
      simp only [hreplies] at h
      split at h
      · cases h
        exact ⟨rfl, .failed _⟩
      · split at h
        · cases h
          exact ⟨rfl, .failed _⟩
        · unfold keep at h
          simp only [] at h
          split at h
          · cases h
            exact ⟨rfl, .failed _⟩
          · next hkeep =>
            cases h
            split at hkeep
            · obtain ⟨l, hstore, hkeep⟩ := bind_eq_ok.mp hkeep
              cases hkeep
              exact ⟨rfl, .kept hstore⟩
            · next hresponse =>
              cases hkeep
              exact ⟨rfl, .unkept (by simpa using hresponse)⟩

/-- A review asks nothing and changes nothing of what is known, or it asks about a prompt on which nothing
is known. -/
theorem review_cases (h : r.review now provider file lines s site = (x, r')) :
    (r'.asked = r.asked ∧ r'.librarian = r.librarian)
    ∨ ∃ prompt checkId, r.librarian.query prompt checkId (.text (snippetOf site.block lines)) = .ok none
      ∧ r'.asked = r.asked ++ [prompt]
      ∧ Consults r.librarian provider r.client.model (snippetOf site.block lines) prompt checkId x r'.librarian := by
  unfold review at h
  simp only [] at h
  split at h
  · cases h
    exact .inl ⟨rfl, rfl⟩
  · split at h
    · cases h
      exact .inl ⟨rfl, rfl⟩
    · split at h
      · cases h
        exact .inl ⟨rfl, rfl⟩
      · cases h
        exact .inl ⟨rfl, rfl⟩
      · next hquery =>
        split at h
        · cases h
          exact .inl ⟨rfl, rfl⟩
        · split at h
          · have hconsults := consults_consult h
            exact .inr ⟨_, _, hquery, hconsults⟩
          · cases h
            exact .inl ⟨rfl, rfl⟩

end

/-- What is known after reviews of any blocks, by reviewers that take over what is known. -/
inductive Later (l : Librarian) : Librarian → Prop where
  | now : Later l l
  | review {r : Reviewer} (h : Later l r.librarian) (now : Float) (provider file : String) (lines : List String)
      (s : Ssa) (site : Site) : Later l (r.review now provider file lines s site).2.librarian

/-- A decision on a prompt stands: a review of the same prompt finds it and asks no more. -/
theorem Later.decision?_eq (h : Later l l') {hash : String}
    (hd : l.decision? hash = some d) : l'.decision? hash = some d := by
  induction h with
  | now => exact hd
  | @review r _ now provider file lines s site ih =>
    rcases review_cases (Prod.eta (r.review now provider file lines s site)).symm with
      ⟨-, hsame⟩ | ⟨prompt, checkId, hquery, -, hconsults⟩
    · rw [hsame]
      exact ih
    · generalize (r.review now provider file lines s site).2.librarian = l'' at hconsults ⊢
      generalize (r.review now provider file lines s site).1 = x at hconsults
      cases hconsults with
      | failed => exact ih
      | unkept => exact ih
      | kept hstore =>
        obtain ⟨e, hhash, -, hdecisions⟩ := store_eq_ok hstore
        rw [decision?_of_decisions hdecisions, if_neg]
        · exact ih
        · rintro rfl
          rw [decision?_of_query hhash hquery] at ih
          cases ih

/-! ## Insights -/

theorem sub_insightOf (provider model snippet : String) (response : Value) :
    (insightOf provider model snippet response).sub "response" = response.sub "content"
    ∧ (insightOf provider model snippet response).sub "error" = response.sub "error"
    ∧ (insightOf provider model snippet response).getD "analysis" (.list [])
      = (analysisOf (response.sub "content")).getD (.list []) := by
  have hrest : ∀ response : Value,
      (["status", "body", "raw"].filterMap fun k => (response.get? k).map (k, ·)).lookup "analysis" = none := by
    intro response
    rw [lookup_eq_none_iff]
    intro e he
    obtain ⟨k, hk, he⟩ := mem_filterMap.mp he
    obtain ⟨x, -, rfl⟩ := Option.map_eq_some_iff.mp he
    simp only [mem_cons, not_mem_nil, or_false] at hk
    rcases hk with rfl | rfl | rfl <;> rfl
  refine ⟨rfl, rfl, ?_⟩
  rw [Value.getD, insightOf, Value.get?_obj, lookup_append, lookup_append, hrest]
  cases analysisOf (response.sub "content") <;> rfl

theorem getD_insight (d : DecisionRow) : d.insight.sub "response" = d.response.value
    ∧ d.insight.getD "analysis" (.list []) = d.response.elim (.list []) recalledAnalysis := ⟨rfl, rfl⟩

/-- An answer with content that came with a review has been kept, and its analysis is attached. -/
theorem kept_of_review {r : Reviewer} {now : Float} {provider file : String} {lines : List String} {s : Ssa}
    {site : Site} {insight : Value} {content : String}
    (hreview : r.review now provider file lines s site = (.ok (some insight), r'))
    (hasked : r'.asked = r.asked ++ [prompt]) (hcontent : insight.sub "response" = .text content) (hne : content ≠ "")
    (herror : (insight.sub "error").truthy = false) :
    (∃ d : DecisionRow, promptHash prompt = .ok d.hash ∧ d.response = some content
      ∧ r'.librarian.decision? d.hash = some d)
    ∧ insight.getD "analysis" (.list []) = completedAnalysis (recalledAnalysis content) := by
  rcases review_cases hreview with ⟨hsame, -⟩ | ⟨prompt', checkId', -, hprompt, hconsults⟩
  · rw [hsame] at hasked
    exact absurd hasked.symm (by simp)
  · obtain rfl : prompt' = prompt := by simpa using hprompt.symm.trans hasked
    generalize r'.librarian = l at hconsults ⊢
    cases hconsults with
    | @unkept response hresponse =>
      obtain ⟨hsub, herror', -⟩ := sub_insightOf provider r.client.model (snippetOf site.block lines) response
      have htruthy : (text content).truthy = true := by simpa [truthy] using hne
      rw [← hsub, hcontent, ← herror', herror, htruthy] at hresponse
      cases hresponse
    | @kept response l hstore =>
      obtain ⟨hsub, -, hanalysis⟩ := sub_insightOf provider r.client.model (snippetOf site.block lines) response
      rw [hsub] at hcontent
      obtain ⟨d, hhash, ⟨i, hd⟩, hdecisions⟩ := store_eq_ok hstore
      rw [hcontent] at hd hanalysis
      refine ⟨⟨d, hhash, (Except.ok.inj hd).symm, ?_⟩, hanalysis.trans (analysisOf_text content)⟩
      rw [decision?_of_decisions hdecisions, if_pos rfl]

/-- An answer that came with a review and was kept is found by its prompt ever after. What is recalled of it is
the analysis as it stands there, what was attached to the block is the analysis with the names that mean the
same filled in. -/
theorem recalled_after_review {r r' : Reviewer} {now : Float} {provider file : String} {lines : List String} {s : Ssa}
    {site : Site} {insight prompt : Value} {content : String}
    (hreview : r.review now provider file lines s site = (.ok (some insight), r'))
    (hasked : r'.asked = r.asked ++ [prompt]) (hcontent : insight.sub "response" = .text content) (hne : content ≠ "")
    (herror : (insight.sub "error").truthy = false) {l : Librarian} (hlater : Later r'.librarian l)
    (checkId snippet : Value) :
    ∃ known, l.query prompt checkId snippet = .ok (some known) ∧ known.sub "response" = .text content
      ∧ known.getD "analysis" (.list []) = recalledAnalysis content
      ∧ insight.getD "analysis" (.list []) = completedAnalysis (recalledAnalysis content)
      ∧ (insight.getD "analysis" (.list []) = known.getD "analysis" (.list [])
        ↔ ∃ items, recalledAnalysis content = .list items ∧ ∀ i ∈ items, IsFilled i) := by
  obtain ⟨⟨d, hhash, hresponse, hd⟩, hanalysis⟩ := kept_of_review hreview hasked hcontent hne herror
  obtain ⟨hsub, hrecalled⟩ := getD_insight d
  rw [hresponse] at hsub hrecalled
  rw [Option.elim_some] at hrecalled
  refine ⟨d.insight, query_of_decision? hhash (hlater.decision?_eq hd) checkId snippet, hsub, hrecalled, hanalysis, ?_⟩
  rw [hanalysis, hrecalled, completedAnalysis_eq_self_iff]

/-! ## An answer with one name for the remedy -/

def oneFinding : Site :=
  { block := { id := 0, scope := ⟨"global", false⟩, items := [.stmt (.pass ⟨1, 0, 1, 4⟩)] }
    findings := [.obj [("check_id", .text "c"), ("line", .int 1)]] }

def plainSsa : Ssa := Ssa.ofGraph { name := "m", entry := 0 }

def onePrompt : Value :=
  .list (((questionAt plainSsa "m.py" "pass" oneFinding).messages.toOption.getD []).map (·.value))

/-- A reviewer whose model gives one answer; its budget sets nothing aside for the prompt. -/
def answering (content : String) : Reviewer :=
  { client := ⟨true, "m1"⟩
    gate := { budget := { maxCompletion := .int (-estimateTokens ((flattenPrompt onePrompt).toOption.getD "")) } }
    replies := [.ok (.obj [("content", .text content)])] }

def bareRemedy : String := "\x7b\"analysis\": [\x7b\"remediation\": \"x\"\x7d]\x7d"

def soleText? : Value → Option (String × String)
  | .list [.map [(.text k, .text t)]] => some (k, t)
  | _ => none

theorem eq_of_soleText? {v : Value} {k t : String} (h : soleText? v = some (k, t)) :
    v = .list [.obj [(k, .text t)]] := by
  unfold soleText? at h
  split at h
  · cases h
    rfl
  · cases h

theorem recalled_bareRemedy : recalledAnalysis bareRemedy = .list [.obj [("remediation", .text "x")]] :=
  eq_of_soleText? (by decide +kernel)

theorem messages_oneFinding : ∃ text, (questionAt plainSsa "m.py" "pass" oneFinding).messages
    = .ok [⟨"system", systemRole⟩, ⟨"user", text⟩] := by
  have hsome : (questionAt plainSsa "m.py" "pass" oneFinding).text.toOption.isSome = true := by decide +kernel
  cases htext : (questionAt plainSsa "m.py" "pass" oneFinding).text with
  | error e =>
    rw [htext] at hsome
    cases hsome
  | ok text => exact ⟨text, by simp only [Llm.Question.messages, htext]; rfl⟩

theorem review_answering : ∃ insight r', (answering bareRemedy).review 0.0 "openai" "m.py" ["pass"] plainSsa oneFinding
      = (.ok (some insight), r')
    ∧ r'.asked = (answering bareRemedy).asked ++ [onePrompt] ∧ insight.sub "response" = .text bareRemedy
    ∧ (insight.sub "error").truthy = false := by
  obtain ⟨text, hmessages⟩ := messages_oneFinding
  have hprompt : onePrompt = .list [.obj [("role", .text "system"), ("content", .text systemRole)],
      .obj [("role", .text "user"), ("content", .text text)]] := by
    rw [onePrompt, hmessages]
    rfl
  have hsnippet : snippetOf oneFinding.block ["pass"] = "pass" := by decide +kernel
  obtain ⟨hash, hhash⟩ : ∃ hash, promptHash onePrompt = .ok hash := by
    rw [hprompt]
    exact ⟨_, rfl⟩
  have hquery : (answering bareRemedy).librarian.query onePrompt (.text "c") (.text "pass") = .ok none := by
    simp only [Librarian.query, Librarian.remembered, hhash]
    rfl
  obtain ⟨g, hgate⟩ : ∃ g, (answering bareRemedy).gate.evaluate 0.0 onePrompt
      ⟨(answering bareRemedy).client.configured, .text "openai"⟩ = .ok (⟨true, "Allowed", .int 0, .float 0.0⟩, g) := by
    obtain ⟨flat, hflat⟩ : ∃ flat, flattenPrompt onePrompt = .ok flat := by
      rw [hprompt]
      exact ⟨_, rfl⟩
    have hbudget : (answering bareRemedy).gate.budget.maxCompletion = .int (-estimateTokens flat) := by
      rw [answering, hflat]
      rfl
    have hlimited : (answering bareRemedy).gate.isLimited 0.0 (.text "openai") = .ok false := by
      have hzero : less (.float 0.0) (.float 0.0) = .ok false := by decide +kernel
      exact hzero
    have htokens : plus (.nat (estimateTokens flat)) (.int (-estimateTokens flat)) = .ok (.int 0) := by
      change Except.ok (int (estimateTokens flat + -estimateTokens flat)) = _
      rw [Int.add_right_neg]
    unfold Llm.Gate.evaluate
    simp only [hlimited, hflat, hbudget, htokens, bind, Except.bind]
    exact ⟨_, rfl⟩
  obtain ⟨l, hstore⟩ : ∃ l, Librarian.store {} onePrompt (.text bareRemedy)
      ((analysisOf (.text bareRemedy)).getD (.list [])) (.text "m1") (.text "pass") (.text "c") = .ok l := by
    rw [analysisOf_text, recalled_bareRemedy]
    simp only [Librarian.store, hhash, bind, Except.bind]
    exact ⟨_, rfl⟩
  have hrecord : g.record 0.0 ⟨true, .text "openai"⟩ (.obj [("content", .text bareRemedy)])
      ⟨true, "Allowed", .int 0, .float 0.0⟩ = (.ok (), g) := by
    have hstatus : same .null (.int 429) = false := by simp [same]
    have hfield : (obj [("content", .text bareRemedy)]).field "status" = .ok .null := rfl
    have htruthy : (obj [("content", .text bareRemedy)]).truthy = true := rfl
    have husage : reportedUsage (.obj [("content", .text bareRemedy)]) = .ok none := rfl
    simp only [Llm.Gate.record, Llm.Gate.noteLimit, htruthy, hfield, hstatus, husage, bind, Except.bind]
    rfl
  have hvalues : Value.list ([⟨"system", systemRole⟩, ⟨"user", text⟩].map Llm.Message.value) = onePrompt := hprompt.symm
  have hreview : (answering bareRemedy).review 0.0 "openai" "m.py" ["pass"] plainSsa oneFinding
      = ({ answering bareRemedy with gate := g } : Reviewer).consult 0.0 "openai" ⟨true, "Allowed", .int 0, .float 0.0⟩
        onePrompt "pass" (.text "c") := by
    have hfindings : oneFinding.findings = [.obj [("check_id", .text "c"), ("line", .int 1)]] := rfl
    have hid : (obj [("check_id", .text "c"), ("line", .int 1)]).getD "check_id" (.text "") = .text "c" := rfl
    simp only [review, hsnippet, hmessages, hvalues, hfindings, hid, hquery, hgate]
    rfl
  have hcontent : (obj [("content", .text bareRemedy)]).sub "content" = .text bareRemedy := rfl
  refine ⟨insightOf "openai" "m1" "pass" (.obj [("content", .text bareRemedy)]),
    { answering bareRemedy with gate := g, replies := [], asked := [onePrompt], librarian := l }, ?_, rfl, rfl, rfl⟩
  rw [hreview]
  simp only [consult, ask, keep, answering, hrecord, hcontent, hstore, bind, Except.bind]
  rfl

/-- The answer is attached with the remedy under two names. -/
theorem remedy_recalled : ∃ insight r', (answering bareRemedy).review 0.0 "openai" "m.py" ["pass"] plainSsa oneFinding
      = (.ok (some insight), r')
    ∧ ∃ known, r'.librarian.query onePrompt .null .null = .ok (some known)
      ∧ insight.getD "analysis" (.list []) = completedAnalysis (known.getD "analysis" (.list [])) := by
  obtain ⟨insight, r', hreview, hasked, hcontent, herror⟩ := review_answering
  obtain ⟨known, hquery, -, hrecalled, hattached, -⟩ :=
    recalled_after_review hreview hasked hcontent (by decide) herror .now .null .null
  exact ⟨insight, r', hreview, known, hquery, by rw [hattached, hrecalled]⟩

/-- It is recalled with the remedy under one name. -/
theorem remedy_recalled_bare : ∃ insight r',
    (answering bareRemedy).review 0.0 "openai" "m.py" ["pass"] plainSsa oneFinding = (.ok (some insight), r')
    ∧ ∃ known, r'.librarian.query onePrompt .null .null = .ok (some known)
      ∧ insight.getD "analysis" (.list []) ≠ known.getD "analysis" (.list []) := by
  obtain ⟨insight, r', hreview, hasked, hcontent, herror⟩ := review_answering
  obtain ⟨⟨d, hhash, hresponse, hd⟩, hanalysis⟩ := kept_of_review hreview hasked hcontent (by decide) herror
  refine ⟨insight, r', hreview, d.insight, query_of_decision? hhash hd .null .null, ?_⟩
  rw [hanalysis, (getD_insight d).2, hresponse, Option.elim_some, recalled_bareRemedy]
  intro heq
  obtain ⟨items, hitems, hfilled⟩ := (completedAnalysis_eq_self_iff _).mp heq
  cases hitems
  have hfix := hfilled _ List.mem_cons_self rfl ("fix_suggestion", "remediation") List.mem_cons_self
  exact absurd hfix (by decide)

end SecScan.Pipeline
