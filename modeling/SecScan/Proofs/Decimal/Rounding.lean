import Mathlib
import SecScan.Decimal.Shortest

/-!
Doubles and the digits that are read as them. A double is made of its parts (`signed_of_parts`). What is read
depends on the quotient alone (`nearest_mul`), and a quotient that is a double is read as it (`nearest_exact`).
So the digits that are written for a double are read as it (`shortestDigits_read`).
-/

namespace SecScan.Decimal

variable {den m num : ℕ} {q : ℤ} {x : Float}

/-! ## Rounding -/

theorem roundDiv_exact {d : ℕ} (hd : 0 < d) (m : ℕ) : roundDiv (m * d) d = m := by simp [roundDiv, hd]

theorem roundDiv_mul {k : ℕ} (hk : 0 < k) (n d : ℕ) : roundDiv (k * n) (k * d) = roundDiv n d := by
  have hhalf (a b : ℕ) : 2 * (k * a) < k * b ↔ 2 * a < b := by
    rw [Nat.mul_left_comm, Nat.mul_lt_mul_left hk]
  have hhalf' (a b : ℕ) : k * b < 2 * (k * a) ↔ b < 2 * a := by
    rw [Nat.mul_left_comm, Nat.mul_lt_mul_left hk]
  simp only [roundDiv, Nat.mul_div_mul_left _ _ hk, Nat.mul_mod_mul_left, hhalf, hhalf']

/-- The mantissas and exponents of positive finite doubles. -/
structure Legal (m : ℕ) (q : ℤ) : Prop where
  pos : 0 < m
  lt : m < 2 ^ 53
  low : -1074 ≤ q
  high : q ≤ 971
  normal : -1074 < q → 2 ^ 52 ≤ m

theorem two_zpow_pos (q : ℤ) : (0 : ℚ) < 2 ^ q := zpow_pos (by norm_num) q

theorem lt_of_zpow_lt {a b : ℤ} (h : (2 : ℚ) ^ a < 2 ^ b) : a < b := (zpow_lt_zpow_iff_right₀ (by norm_num)).mp h

theorem nat_pow_toNat (b : ℕ) (hb : (b : ℚ) ≠ 0) (e : ℤ) :
    ((Nat.pow b e.toNat : ℕ) : ℚ) = b ^ e * (Nat.pow b (-e).toNat : ℕ) := by
  change ((b ^ e.toNat : ℕ) : ℚ) = b ^ e * (b ^ (-e).toNat : ℕ)
  push_cast
  rw [← zpow_natCast, ← zpow_natCast, ← zpow_add₀ hb]
  congr 1
  omega

theorem inUnits_eq (num den : ℕ) (e : ℤ) : ((inUnits num den e).1 : ℚ) / (inUnits num den e).2 = num / den / 2 ^ e := by
  have hne := (two_zpow_pos e).ne'
  have hpow : ((Nat.pow 2 (-e).toNat : ℕ) : ℚ) ≠ 0 := by
    exact_mod_cast (Nat.pow_pos (by norm_num) : 0 < Nat.pow 2 (-e).toNat).ne'
  simp only [inUnits, Nat.cast_mul]
  rw [nat_pow_toNat 2 (by norm_num) e]
  push_cast
  field_simp

theorem inUnits_pos (h : 0 < den) (num : ℕ) (e : ℤ) : 0 < (inUnits num den e).2 :=
  Nat.mul_pos h (Nat.pow_pos (by norm_num))

/-- A number lies between the powers of two around it. -/
theorem log2_bounds {n : ℕ} (h : 0 < n) : (2 : ℚ) ^ (n.log2 : ℤ) ≤ n ∧ (n : ℚ) < 2 ^ ((n.log2 : ℤ) + 1) := by
  rw [zpow_natCast, ← Nat.cast_succ, zpow_natCast]
  exact ⟨by exact_mod_cast Nat.log2_self_le h.ne', by exact_mod_cast Nat.lt_log2_self⟩

/-- The unit leaves at most 53 bits, and no fewer unless it is the least. -/
theorem unitOf_spec (hnum : 0 < num) (hden : 0 < den) :
    (num / den : ℚ) < 2 ^ (53 + unitOf num den) ∧ -1074 ≤ unitOf num den ∧
      (-1074 < unitOf num den → (2 : ℚ) ^ (52 + unitOf num den) ≤ num / den) := by
  obtain ⟨hnlow, hnhigh⟩ := log2_bounds hnum
  obtain ⟨hdlow, hdhigh⟩ := log2_bounds hden
  have hden' : (0 : ℚ) < den := by exact_mod_cast hden
  unfold unitOf
  generalize he : (num.log2 : ℤ) - den.log2 - 53 = e
  have hlow : (2 : ℚ) ^ (52 + e) ≤ num / den := by
    rw [le_div_iff₀ hden']
    calc (2 : ℚ) ^ (52 + e) * den ≤ 2 ^ (52 + e) * 2 ^ ((den.log2 : ℤ) + 1) := by gcongr
      _ = 2 ^ (num.log2 : ℤ) := by rw [← zpow_add₀ (by norm_num)]; congr 1; omega
      _ ≤ num := hnlow
  have hhigh : (num / den : ℚ) < 2 ^ (54 + e) := by
    rw [div_lt_iff₀ hden']
    calc (num : ℚ) < 2 ^ ((num.log2 : ℤ) + 1) := hnhigh
      _ = 2 ^ (54 + e) * 2 ^ (den.log2 : ℤ) := by rw [← zpow_add₀ (by norm_num)]; congr 1; omega
      _ ≤ 2 ^ (54 + e) * den := by gcongr
  have hfits : (inUnits num den e).1 / (inUnits num den e).2 < Nat.pow 2 53 ↔ (num / den : ℚ) < 2 ^ (53 + e) := by
    have hpos : (0 : ℚ) < (inUnits num den e).2 := by exact_mod_cast inUnits_pos hden num e
    rw [Nat.div_lt_iff_lt_mul (inUnits_pos hden num e), ← Nat.cast_lt (α := ℚ), Nat.cast_mul,
      ← div_lt_iff₀ hpos, inUnits_eq, div_lt_iff₀ (two_zpow_pos e), zpow_add₀ (by norm_num)]
    norm_num
  dsimp only
  by_cases hfit : (num / den : ℚ) < 2 ^ (53 + e)
  · rw [if_pos (hfits.mpr hfit)]
    refine ⟨hfit.trans_le (zpow_le_zpow_right₀ (by norm_num) (by omega)), by omega, fun h => ?_⟩
    rwa [max_eq_left (by omega)]
  · rw [if_neg (mt hfits.mp hfit)]
    refine ⟨hhigh.trans_le (zpow_le_zpow_right₀ (by norm_num) (by omega)), by omega, fun h => ?_⟩
    rw [max_eq_left (by omega), show 52 + (e + 1) = 53 + e by ring]
    exact not_lt.mp hfit

/-- There is only one such unit. -/
theorem unitOf_eq (hnum : 0 < num) (hden : 0 < den) {e : ℤ} (hfits : (num / den : ℚ) < 2 ^ (53 + e))
    (hleast : -1074 ≤ e) (hfull : -1074 < e → (2 : ℚ) ^ (52 + e) ≤ num / den) : unitOf num den = e := by
  obtain ⟨hfits', hleast', hfull'⟩ := unitOf_spec hnum hden
  generalize unitOf num den = u at hfits' hleast' hfull'
  have hle {a b : ℤ} (ha : -1074 < a → (2 : ℚ) ^ (52 + a) ≤ num / den) (hb : (num / den : ℚ) < 2 ^ (53 + b))
      (hleast : -1074 ≤ b) : a ≤ b := by
    by_contra hlt
    have := lt_of_zpow_lt ((ha (by omega)).trans_lt hb)
    omega
  exact le_antisymm (hle hfull' hfits hleast) (hle hfull hfits' hleast')

/-- What a quotient is read as does not depend on how it is written. -/
theorem nearest_mul (hnum : 0 < num) (hden : 0 < den) {k : ℕ} (hk : 0 < k) :
    nearest (k * num) (k * den) = nearest num den := by
  have hvalue : ((k * num : ℕ) : ℚ) / (k * den : ℕ) = num / den := by
    push_cast
    exact mul_div_mul_left _ _ (by exact_mod_cast hk.ne')
  obtain ⟨hfits, hleast, hfull⟩ := unitOf_spec hnum hden
  have hunit : unitOf (k * num) (k * den) = unitOf num den :=
    unitOf_eq (Nat.mul_pos hk hnum) (Nat.mul_pos hk hden) (hvalue ▸ hfits) hleast (hvalue ▸ hfull)
  simp [nearest, hunit, inUnits, Nat.mul_assoc, roundDiv_mul hk, hk.ne']

/-- A quotient that is a double is read as it. -/
theorem nearest_exact (hlegal : Legal m q) (hnum : 0 < num) (hden : 0 < den) (hvalue : (num / den : ℚ) = m * 2 ^ q) :
    nearest num den = bitsOf m q := by
  have hq := two_zpow_pos q
  have hunit : unitOf num den = q := by
    refine unitOf_eq hnum hden ?_ hlegal.low fun h => ?_
    · rw [hvalue, zpow_add₀ (by norm_num)]
      gcongr
      exact_mod_cast hlegal.lt
    · rw [hvalue, zpow_add₀ (by norm_num)]
      gcongr
      exact_mod_cast hlegal.normal h
  have hd := inUnits_pos hden num q
  have hwhole : (inUnits num den q).1 = m * (inUnits num den q).2 := by
    have hunits := inUnits_eq num den q
    rw [hvalue, mul_div_cancel_right₀ _ hq.ne', div_eq_iff (by exact_mod_cast hd.ne')] at hunits
    exact_mod_cast hunits
  have hhigh := hlegal.high
  simp [nearest, hunit, hwhole, roundDiv_exact hd, hnum.ne', hden.ne', hhigh]

/-! ## Bits -/

open Float.Model Float.Model.UnpackedFloat

theorem eq_of_toBits {y : Float} (h : x.toBits.toNat = y.toBits.toNat) : x = y :=
  Float.toBits_inj.mp (UInt64.toNat_inj.mp h)

section Fields

variable (b : BitVec Format.binary64.numBits)

theorem toNat_unpackExponent : (unpackExponent b).toNat = b.toNat / 2 ^ 52 % 2 ^ 11 := by
  simp only [unpackExponent, BitVec.toNat_cast, BitVec.extractLsb, BitVec.extractLsb'_toNat, Nat.shiftRight_eq_div_pow]

theorem toNat_unpackMantissa : (unpackMantissa b).toNat = b.toNat % 2 ^ 52 := by
  simp only [unpackMantissa, BitVec.toNat_cast, BitVec.extractLsb, BitVec.extractLsb'_toNat, Nat.shiftRight_zero]

end Fields

theorem toBits_of_parts {negative : Bool} (h : parts x = .finite negative m q) :
    x.toBits.toNat = (if negative then 2 ^ 63 else 0) + (q + 1074).toNat * 2 ^ 52 + m ∧ (m ≠ 0 → Legal m q) := by
  have hbits : x.toBits.toNat < 2 ^ 64 := x.toBits.toBitVec.isLt
  have hpow (b n : ℕ) : Nat.pow b n = b ^ n := rfl
  unfold parts at h
  simp only [hpow, beq_iff_eq] at h
  generalize x.toBits.toNat = N at h hbits
  split at h
  · split at h <;> cases h
  · split at h <;> cases h <;> refine ⟨?_, fun hm => ⟨by omega, by omega, by omega, by omega, by omega⟩⟩ <;>
      simp only [beq_iff_eq] <;> split <;> omega

theorem signed_of_parts {negative : Bool} (h : parts x = .finite negative m q) : signed negative (bitsOf m q) = x := by
  have hbits := (toBits_of_parts h).1
  rw [← Float.ofBits_toBits x, signed, bitsOf, ← Nat.add_assoc]
  exact congrArg Float.ofBits (UInt64.toNat_inj.mp (hbits ▸ UInt64.toNat_ofNat_of_lt' x.toBits.toBitVec.isLt))

/-- There is one double that is no number. -/
theorem eq_nan (hfull : x.toBits.toNat / 2 ^ 52 % 2 ^ 11 = 2047) (hsome : x.toBits.toNat % 2 ^ 52 ≠ 0) :
    x = 0.0 / 0.0 := by
  have hexponent : @unpackExponent Format.binary64 x.toModel.toBits.toBitVec = -1#11 :=
    BitVec.eq_of_toNat_eq ((toNat_unpackExponent _).trans hfull)
  have hmantissa : @unpackMantissa Format.binary64 x.toModel.toBits.toBitVec ≠ 0#52 := fun hzero =>
    hsome ((toNat_unpackMantissa _).symm.trans (congrArg BitVec.toNat hzero))
  apply eq_of_toBits
  change x.toModel.toBits.toBitVec.toNat = _
  rw [x.toModel.valid.eq_packedNaN hexponent hmantissa]
  decide

/-- A double is one of the three that are no numbers, a zero, or made of its parts. -/
theorem float_cases (x : Float) : (x = 0.0 / 0.0 ∨ x = 1.0 / 0.0 ∨ x = -1.0 / 0.0) ∨ (x = 0.0 ∨ x = -0.0) ∨
    ∃ negative m q, Legal m q ∧ parts x = .finite negative m q := by
  have hbits : x.toBits.toNat < 2 ^ 64 := x.toBits.toBitVec.isLt
  by_cases hfull : x.toBits.toNat / 2 ^ 52 % 2 ^ 11 = 2047
  · left
    by_cases hzero : x.toBits.toNat % 2 ^ 52 = 0
    · right
      have hsign : x.toBits.toNat = 0x7ff0000000000000 ∨ x.toBits.toNat = 0xfff0000000000000 := by omega
      refine hsign.imp ?_ ?_ <;> intro hsign <;> apply eq_of_toBits <;> rw [hsign] <;> decide
    · exact .inl (eq_nan hfull hzero)
  · right
    by_cases hzero : x.toBits.toNat % 2 ^ 63 = 0
    · left
      have hsign : x.toBits.toNat = 0 ∨ x.toBits.toNat = 0x8000000000000000 := by omega
      refine hsign.imp ?_ ?_ <;> intro hsign <;> apply eq_of_toBits <;> rw [hsign] <;> decide
    · right
      have hpow (b n : ℕ) : Nat.pow b n = b ^ n := rfl
      have hparts : ∃ negative m q, parts x = .finite negative m q ∧ m ≠ 0 := by
        unfold parts
        simp only [hpow, beq_iff_eq, hfull, ↓reduceIte]
        split
        · exact ⟨_, _, _, rfl, by omega⟩
        · exact ⟨_, _, _, rfl, by omega⟩
      obtain ⟨negative, m, q, hparts, hm⟩ := hparts
      exact ⟨negative, m, q, (toBits_of_parts hparts).2 hm, hparts⟩

/-! ## Digits -/

theorem nearestDigits_eq {d : ℕ} {e : ℤ} (hd : 0 < d) (hlow : -1100 ≤ (d.log2 : ℤ) + 3 * e) (hhigh : e ≤ 400) :
    nearestDigits d e = nearest (d * 10 ^ e.toNat) (10 ^ (-e).toNat) := by
  simp [nearestDigits, hd.ne', not_lt.mpr hlow, not_lt.mpr hhigh]

/-- Zeros behind the digits, and a zero behind the point, change nothing. -/
theorem nearestDigits_point {d : ℕ} (hd : 0 < d) {e : ℤ} (hlow : 0 ≤ e) (hhigh : e ≤ 400) :
    nearestDigits (d * 10 ^ (e.toNat + 1)) (-1) = nearestDigits d e := by
  obtain ⟨k, rfl⟩ := Int.eq_ofNat_of_zero_le hlow
  have hmul : nearest (10 * (d * 10 ^ k)) (10 * 1) = nearest (d * 10 ^ k) 1 :=
    nearest_mul (by positivity) (by norm_num) (by norm_num)
  rw [nearestDigits_eq (by positivity) (by omega) (by norm_num), nearestDigits_eq hd (by omega) hhigh]
  simpa [pow_succ, Nat.mul_comm, Nat.mul_left_comm] using hmul

theorem nearestDigits_exact (h : Legal m q) :
    nearestDigits (exactDigits m q).digits (exactDigits m q).exponent = bitsOf m q := by
  have hpos : 0 < m * 2 ^ q.toNat * 5 ^ (-q).toNat := Nat.mul_pos (Nat.mul_pos h.pos (by positivity)) (by positivity)
  -- there are enough digits before the point, as `4 ^ n ≤ 5 ^ n`
  have hbits : 2 * (-q).toNat ≤ (m * 2 ^ q.toNat * 5 ^ (-q).toNat).log2 := by
    rw [Nat.le_log2 hpos.ne', pow_mul]
    calc 4 ^ (-q).toNat ≤ 5 ^ (-q).toNat := Nat.pow_le_pow_left (by norm_num) _
      _ ≤ m * 2 ^ q.toNat * 5 ^ (-q).toNat := Nat.le_mul_of_pos_left _ (Nat.mul_pos h.pos (by positivity))
  have hlow := h.low
  have hread := nearestDigits_eq (e := min q 0) hpos (by omega) (by omega)
  refine hread.trans (nearest_exact h (by positivity) (by positivity) ?_)
  push_cast
  rcases le_total 0 q with hq | hq
  · obtain ⟨k, rfl⟩ := Int.eq_ofNat_of_zero_le hq
    simp
  · obtain ⟨k, rfl⟩ := Int.exists_eq_neg_ofNat hq
    have hten : (10 : ℚ) ^ k = 5 ^ k * 2 ^ k := by rw [← mul_pow]; norm_num
    simp [hten]
    field_simp

/-- The digits that are written for a double are read as it. -/
theorem shortestDigits_read (h : Legal m q) : 0 < (shortestDigits m q).digits ∧
    nearestDigits (shortestDigits m q).digits (shortestDigits m q).exponent = bitsOf m q := by
  have hread : nearestDigits (shortestDigits m q).digits (shortestDigits m q).exponent = bitsOf m q := by
    unfold shortestDigits
    generalize List.range 18 = grids
    dsimp only
    generalize hfind : grids.findSome? _ = found
    cases found with
    | none => exact nearestDigits_exact h
    | some d =>
      obtain ⟨n, -, hd⟩ := List.exists_of_findSome?_eq_some hfind
      simpa using List.find?_some hd
  refine ⟨Nat.pos_of_ne_zero fun hzero => ?_, hread⟩
  have hpos := h.pos
  rw [hzero] at hread
  have : bitsOf m q = 0 := hread.symm
  unfold bitsOf at this
  omega

end SecScan.Decimal
