import SecScan.Llm.Prompt
import SecScan.Proofs.Keyed
import Mathlib.Data.List.DropRight

/-!
Excerpts of long texts. A text that fits its budget stays as it is. Of a longer one a head and a tail are
kept around the mark (`Excerpted`): they do not overlap in the text, and together with the mark they fit
the budget (`excerpt_within`), as long as the head leaves something of the budget to the tail.
-/

namespace SecScan.Llm

open Text Value

/-- A head and a tail of a text around the mark, which do not overlap in the text. -/
def Excerpted (s t : String) : Prop :=
  ∃ head rest tail, s = head ++ rest ++ tail ∧ t = head ++ truncationMark ++ tail

variable {s : String} {n : Nat}

theorem toList_sliceTo (h : n ≤ s.length) : (Text.sliceTo s n).toList = s.toList.take n := by
  have hplace : Text.place s n = n := by
    simp only [Text.place, Int.toNat_natCast]
    rw [if_neg (by omega), Nat.min_eq_left h]
  simp [Text.sliceTo, take, hplace]

theorem toList_sliceFrom_neg (h : 0 < n) : (Text.sliceFrom s (-n)).toList = s.toList.drop (s.length - n) := by
  have hplace : Text.place s (-n) = s.length - n := by
    simp only [Text.place, Int.natAbs_neg, Int.natAbs_natCast]
    rw [if_pos (by omega)]
  simp [Text.sliceFrom, drop, hplace]

/-- What is counted from the end of a text and is nothing begins at its start. -/
theorem sliceFrom_neg_zero (s : String) : Text.sliceFrom s (-0) = s := by
  rw [← String.toList_inj]
  simp [Text.sliceFrom, drop, Text.place]

theorem exists_of_stripRight (s : String) : ∃ r, s = stripRight s ++ r := by
  obtain ⟨r, hr⟩ := s.toList.rdropWhile_prefix isBlank
  exact ⟨String.ofList r, by rw [← String.toList_inj]; simpa [stripRight, List.rdropWhile] using hr.symm⟩

theorem exists_of_stripLeft (s : String) : ∃ r, s = r ++ stripLeft s := by
  obtain ⟨r, hr⟩ := s.toList.dropWhile_suffix isBlank
  exact ⟨String.ofList r, by rw [← String.toList_inj]; simpa [stripLeft] using hr.symm⟩

/-- A head and a tail that leave something out between them. -/
theorem excerpted_of_fits {head tail : Nat} (htail : 0 < tail) (hfits : head + tail ≤ s.length) :
    Excerpted s (excerptOf head tail s) ∧ (excerptOf head tail s).length ≤ head + tail + truncationMark.length := by
  obtain ⟨after, hafter⟩ := exists_of_stripRight (Text.sliceTo s head)
  obtain ⟨before, hbefore⟩ := exists_of_stripLeft (Text.sliceFrom s (-tail))
  have hhead := toList_sliceTo (s := s) (n := head) (by omega)
  have htail := toList_sliceFrom_neg (s := s) htail
  refine ⟨⟨_, after ++ String.ofList ((s.toList.take (s.length - tail)).drop head) ++ before, _, ?_, rfl⟩, ?_⟩
  · calc s = Text.sliceTo s head ++ String.ofList ((s.toList.take (s.length - tail)).drop head)
          ++ Text.sliceFrom s (-tail) := by
            have hsplit : s.toList.take head = (s.toList.take (s.length - tail)).take head := by
              rw [List.take_take, Nat.min_eq_left (by omega)]
            rw [← String.toList_inj]
            simp [hhead, htail, hsplit]
      _ = stripRight (Text.sliceTo s head) ++ after ++ String.ofList ((s.toList.take (s.length - tail)).drop head)
          ++ (before ++ stripLeft (Text.sliceFrom s (-tail))) := by rw [← hafter, ← hbefore]
      _ = _ := by simp only [String.append_assoc]
  · have hleft : (stripRight (Text.sliceTo s head)).length ≤ head := by
      have := congrArg String.length hafter
      rw [String.length_append, ← String.length_toList, hhead, List.length_take] at this
      omega
    have hright : (stripLeft (Text.sliceFrom s (-tail))).length ≤ tail := by
      have := congrArg String.length hbefore
      rw [String.length_append, ← String.length_toList, htail, List.length_drop, String.length_toList] at this
      omega
    simp only [excerptOf, String.length_append]
    omega

theorem atMost_nat (m n : Nat) : atMost (.nat m) (.nat n) = .ok (decide (m ≤ n)) := by
  have hle : (compare (m : Int) n != .gt) = decide (m ≤ n) := by
    rw [Bool.eq_iff_iff, bne_iff_ne, Ne, Int.compare_eq_gt, decide_eq_true_iff]
    omega
  simp [atMost, related, nat, order?, Number.ofValue?, Number.order, Value.Relation.holds, hle]

/-- What is kept of a text under a budget of `max` characters, of which `ratio` gives `head` to its head. -/
theorem apply_text {max head : Nat} {ratio : Value} (hhead : (nat max).times ratio >>= toWhole = .ok ↑head)
    (hlong : max < s.length) :
    Excerpt.apply ⟨.nat max, ratio⟩ (.text s) = .ok (.text (excerptOf head (max - head) s)) := by
  obtain ⟨share, htimes, hwhole⟩ := bind_eq_ok.mp hhead
  have htail : (nat max).minus (.int head) = .ok (.int (max - head)) := rfl
  have hover : ¬ s.length ≤ max := by omega
  simp [Excerpt.apply, size, atMost_nat, hover, htimes, hwhole, htail, place, bind, Except.bind, pure,
    Except.pure]

/-- The head takes `head` characters of the budget. Where it takes all of them the tail is the whole text. -/
theorem excerpt_within (max : Nat) (ratio : Value) (s : String) :
    (s.length ≤ max → Excerpt.apply ⟨.nat max, ratio⟩ (.text s) = .ok (.text s)) ∧
    ∀ head : Nat, (Value.nat max).times ratio >>= Value.toWhole = .ok ↑head → head ≤ max → max < s.length →
      ∃ t, Excerpt.apply ⟨.nat max, ratio⟩ (.text s) = .ok (.text t) ∧
        (head < max → Excerpted s t ∧ t.length ≤ max + truncationMark.length) ∧
        (head = max → t = stripRight (take max s) ++ truncationMark ++ stripLeft s) := by
  refine ⟨fun hshort => ?_, fun head hhead hle hlong => ⟨_, apply_text hhead hlong, fun hlt => ?_, fun heq => ?_⟩⟩
  · simp [Excerpt.apply, Value.size, atMost_nat, hshort, bind, Except.bind, pure, Except.pure]
  · obtain ⟨hexcerpt, hlength⟩ := @excerpted_of_fits s head (max - head) (by omega) (by omega)
    rw [Int.ofNat_sub hle] at hexcerpt hlength
    exact ⟨hexcerpt, by omega⟩
  · have htake : Text.sliceTo s max = take max s := by
      rw [← String.toList_inj, toList_sliceTo (by omega)]
      simp [take]
    rw [heq, Int.sub_self, excerptOf, htake, sliceFrom_neg_zero]

theorem excerpt_within_half :
    ∃ t, Excerpt.apply ⟨.nat 10, .float 0.5⟩ (.text "0123456789ABCDEF") = .ok (.text t) ∧
      Excerpted "0123456789ABCDEF" t ∧ t.length ≤ 29 := by
  obtain ⟨t, happly, hwithin, -⟩ :=
    (excerpt_within 10 (.float 0.5) "0123456789ABCDEF").2 5 (by rfl) (by decide) (by decide)
  exact ⟨t, happly, hwithin (by decide)⟩

/-- A head that takes the whole budget: the excerpt is longer than the text. -/
theorem excerpt_over_budget :
    ∃ t, Excerpt.apply ⟨.nat 10, .float 1.0⟩ (.text "0123456789ABCDEF") = .ok (.text t) ∧
      10 + truncationMark.length < t.length :=
  ⟨"0123456789\n...<truncated>...\n0123456789ABCDEF", by rfl, by decide⟩

end SecScan.Llm
