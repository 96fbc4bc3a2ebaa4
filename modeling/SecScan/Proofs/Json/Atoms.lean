import SecScan.Json.Writer
import SecScan.Proofs.Decimal.Rounding
import SecScan.Proofs.Keyed
import Mathlib.Data.Bool.AllAny
import Mathlib.Tactic.IntervalCases

/-!
What is read from the text of a value that is no container: an escaped character is read in one step
(`readString_escaped`), and the text of a number is read as that number (`atom_int`, `atom_float`).
-/

namespace SecScan.Json

open List

variable (ascii : Bool) {rest t w : List Char} {n : Nat} {s : String}

/-! ## Escapes -/

theorem hexDigit?_hexChar (h : n < 16) : hexDigit? (hexChar n) = some n := by interval_cases n <;> decide

def escaped (ascii : Bool) (c : Char) : List Char := (escapeChar ascii "" c).toList

theorem escapeChar_toList (acc : String) (c : Char) :
    (escapeChar ascii acc c).toList = acc.toList ++ escaped ascii c := by
  unfold escaped escapeChar
  repeat' split
  all_goals simp

theorem foldl_escapeChar (s : List Char) (acc : String) :
    (s.foldl (escapeChar ascii) acc).toList = acc.toList ++ s.flatMap (escaped ascii) := by
  induction s generalizing acc with
  | nil => simp
  | cons c s ih => simp [ih, escapeChar_toList]

theorem quoteOnto_toList (acc s : String) : (quoteOnto ascii acc s).toList
      = acc.toList ++ '"' :: (s.toList.flatMap (escaped ascii) ++ ['"']) := by
  simp [quoteOnto, String.foldl_eq_foldl_toList, foldl_escapeChar]

theorem hex4_hexUnit (h : n < 0x10000) (rest : List Char) :
    hex4 ((hexUnit n).toList.drop 2 ++ rest) = some (n, rest) := by
  have hd : ∀ k, hexDigit? (hexChar (k % 16)) = some (k % 16) := fun k => hexDigit?_hexChar (Nat.mod_lt _ (by decide))
  simp only [hexUnit, String.toList_ofList, drop_succ_cons, drop_zero, cons_append,
    nil_append, hex4, hd, Option.bind_eq_bind, Option.bind_some, Option.pure_def,
    Option.some.injEq, Prod.mk.injEq, and_true]
  omega

theorem hexUnit_toList (n : Nat) : (hexUnit n).toList = '\\' :: 'u' :: (hexUnit n).toList.drop 2 := by simp [hexUnit]

/-- Numbers of characters leave out the surrogates. -/
theorem toNat_cases (c : Char) : c.toNat < 0xd800 ∨ 0xdfff < c.toNat ∧ c.toNat < 0x110000 := by
  have h := c.valid
  simp only [UInt32.isValidChar, Nat.isValidChar] at h
  simpa only [Char.toNat] using h

theorem hexUnits_toList (a b : Nat) : (hexUnit a ++ hexUnit b).toList
      = '\\' :: 'u' :: ((hexUnit a).toList.drop 2 ++ (hexUnit b).toList) := by
  rw [String.toList_append, hexUnit_toList a]
  rfl

theorem unicodeEscape_unit (hn : n < 0xd800 ∨ 0xdfff < n ∧ n < 0x10000) (rest : List Char) :
    unicodeEscape ((hexUnit n).toList.drop 2 ++ rest) = some (Char.ofNat n, rest) := by
  have hall : ¬ (0xd800 ≤ n ∧ n ≤ 0xdfff) := by omega
  have hfirst : ¬ (0xd800 ≤ n ∧ n ≤ 0xdbff) := by omega
  have hbound : n < 0x10000 := by omega
  simp [unicodeEscape, hex4_hexUnit hbound, scalar, hall, hfirst]

theorem unicodeEscape_pair {a b : Nat} (ha : 0xd800 ≤ a ∧ a ≤ 0xdbff) (hb : 0xdc00 ≤ b ∧ b ≤ 0xdfff)
    (rest : List Char) :
    unicodeEscape ((hexUnit a).toList.drop 2 ++ ((hexUnit b).toList ++ rest))
      = some (Char.ofNat (0x10000 + (a - 0xd800) * 0x400 + (b - 0xdc00)), rest) := by
  have hfirst : a < 0x10000 := by omega
  have hsecond : b < 0x10000 := by omega
  rw [hexUnit_toList b]
  simp [unicodeEscape, hex4_hexUnit hfirst, lowSurrogate, hex4_hexUnit hsecond, ha, hb]

theorem unicodeEscape_unicodeUnits (c : Char) (rest : List Char) :
    ∃ u, (unicodeUnits c.toNat).toList = '\\' :: 'u' :: u ∧ unicodeEscape (u ++ rest) = some (c, rest) := by
  have hc := toNat_cases c
  rw [unicodeUnits]
  by_cases hlow : c.toNat < 0x10000
  · rw [if_pos hlow]
    refine ⟨_, hexUnit_toList _, ?_⟩
    rw [unicodeEscape_unit (by omega), Char.ofNat_toNat]
  · rw [if_neg hlow]
    have hnumber : ∃ a b, a = 0xd800 + (c.toNat - 0x10000) / 0x400 ∧ b = 0xdc00 + (c.toNat - 0x10000) % 0x400
        ∧ (0xd800 ≤ a ∧ a ≤ 0xdbff) ∧ (0xdc00 ≤ b ∧ b ≤ 0xdfff)
        ∧ 0x10000 + (a - 0xd800) * 0x400 + (b - 0xdc00) = c.toNat := by
      refine ⟨_, _, rfl, rfl, ?_⟩
      omega
    obtain ⟨a, b, ha, hb, hfirst, hsecond, hnumber⟩ := hnumber
    rw [← ha, ← hb]
    refine ⟨_, hexUnits_toList a b, ?_⟩
    rw [append_assoc, unicodeEscape_pair hfirst hsecond, hnumber, Char.ofNat_toNat]

theorem readString_escaped (fuel : Nat) (acc : List Char) (c : Char) (rest : List Char) :
    readString (fuel + 1) acc (escaped ascii c ++ rest) = readString fuel (c :: acc) rest := by
  have hescapes : ∀ x ∈ escapes, x.2 ≠ 'u' ∧ simpleEscape? x.2 = some x.1 := by decide
  have hplain : escapes.lookup c = none → c ≠ '"' ∧ c ≠ '\\' := by
    intro h
    constructor
    · rintro rfl
      cases h
    · rintro rfl
      cases h
  unfold escaped escapeChar
  split
  · next e he =>
    obtain ⟨hu, hsimple⟩ := hescapes (c, e) (mem_of_lookup he)
    simp_all [readString]
  · next hnone =>
    split
    · obtain ⟨u, hu, hread⟩ := unicodeEscape_unicodeUnits c rest
      rw [String.toList_append, hu]
      simp [readString, hread]
    · have := hplain hnone
      simp_all [readString]

/-! ## Numbers -/

/-- What may stand behind a value. -/
def Ends (rest : List Char) : Prop := ∀ c ∈ rest.head?, c = ',' ∨ c = ']' ∨ c = '\x7d' ∨ c = '\n'

theorem isDigit_eq (c : Char) : isDigit c = c.isDigit := by simp only [isDigit, Char.isDigit, Char.le_def, ge_iff_le]

theorem digitsValue_eq (ds : List Char) : digitsValue ds = Nat.ofDigitChars 10 ds 0 := by
  simp only [digitsValue, Nat.ofDigitChars, Nat.mul_comm]

theorem digitsValue_toDigits (n : Nat) : digitsValue (Nat.toDigits 10 n) = n := by
  rw [digitsValue_eq, Nat.ofDigitChars_ten_toDigits]

/-- The digits of a whole number: none but a lone zero starts with a zero. -/
structure Whole (w : List Char) : Prop where
  ne_nil : w ≠ []
  digits : ∀ c ∈ w, isDigit c = true
  lead : w.head? = some '0' → w = ['0']

theorem digitChar_ne_zero (h0 : 0 < n) (h : n < 10) : n.digitChar ≠ '0' := by interval_cases n <;> decide

theorem head?_toDigits (hn : 0 < n) : (Nat.toDigits 10 n).head? ≠ some '0' := by
  induction n using Nat.strongRecOn with
  | _ n ih =>
    by_cases hlt : n < 10
    · rw [Nat.toDigits_of_lt_base hlt]
      simpa using digitChar_ne_zero hn hlt
    · have hrec := ih (n / 10) (by omega) (by omega)
      rw [Nat.toDigits_of_base_le (by decide) (by omega), head?_append]
      cases hd : (Nat.toDigits 10 (n / 10)).head? with
      | none => exact absurd (head?_eq_none_iff.mp hd) Nat.toDigits_ne_nil
      | some c => simpa [hd] using hrec

theorem whole_toDigits (n : Nat) : Whole (Nat.toDigits 10 n) where
  ne_nil := Nat.toDigits_ne_nil
  digits c hc := by
    rw [isDigit_eq]
    exact Nat.isDigit_of_mem_toDigits (by decide) (by decide) hc
  lead h := by
    rcases Nat.eq_zero_or_pos n with rfl | hn
    · simp
    · exact absurd h (head?_toDigits hn)

/-- No digit stands at the head. -/
def NoDigit (t : List Char) : Prop := ∀ c ∈ t.head?, isDigit c = false

theorem takeWhile_digits (hw : ∀ c ∈ w, isDigit c = true) (ht : NoDigit t) : (w ++ t).takeWhile isDigit = w := by
  rw [takeWhile_append_of_pos hw]
  cases t with
  | nil => simp
  | cons c t => simp [ht c (by simp)]

theorem dropWhile_digits (hw : ∀ c ∈ w, isDigit c = true) (ht : NoDigit t) : (w ++ t).dropWhile isDigit = t := by
  rw [dropWhile_append_of_pos hw]
  cases t with
  | nil => simp
  | cons c t => simp [ht c (by simp)]

def sign (negative : Bool) : List Char := if negative then ['-'] else []

section

variable (hw : Whole w)
include hw

theorem Whole.head (t : List Char) : ∃ c r, w ++ t = c :: r ∧ isDigit c = true := by
  obtain ⟨c, r, rfl⟩ := exists_cons_of_ne_nil hw.ne_nil
  exact ⟨c, r ++ t, rfl, hw.digits c (by simp)⟩

theorem Whole.cutSign_eq (t : List Char) (negative : Bool) :
    cutSign (sign negative ++ (w ++ t)) = (negative, w ++ t) := by
  cases negative with
  | true => rfl
  | false =>
    obtain ⟨c, r, hcons, hc⟩ := hw.head t
    have hne : c ≠ '-' := by
      rintro rfl
      exact absurd hc (by decide)
    simp [sign, hcons, cutSign, hne]

theorem Whole.wholePart_eq (ht : NoDigit t) : wholePart (w ++ t) = w := by
  unfold wholePart
  split
  case h_1 r h =>
    have hzero : w.head? = some '0' := by
      obtain ⟨c, u, rfl⟩ := exists_cons_of_ne_nil hw.ne_nil
      simpa using (cons.inj h).1
    exact (hw.lead hzero).symm
  case h_2 => exact takeWhile_digits hw.digits ht

theorem readNumber_eq (ht : NoDigit t) (negative : Bool) :
    readNumber (sign negative ++ (w ++ t)) = some (readRemainder negative w t) := by
  simp [readNumber, hw.cutSign_eq, hw.wholePart_eq ht, hw.ne_nil]

theorem word?_number (t : List Char) (negative : Bool) {l : String} {d : Char}
    {r : List Char} (hl : l.toList = d :: r) (hd : isDigit d = false) (hminus : d ≠ '-') :
    word? l (sign negative ++ (w ++ t)) = none := by
  obtain ⟨c, u, hcons, hc⟩ := hw.head t
  have hne : d ≠ c := by
    rintro rfl
    simp [hd] at hc
  cases negative <;> simp [word?, hl, sign, hcons, hne, hminus]

theorem readAtom_number (t : List Char) (negative : Bool) :
    readAtom (sign negative ++ (w ++ t)) = readNumber (sign negative ++ (w ++ t)) := by
  have hinfinite : word? "-Infinity" (sign negative ++ (w ++ t)) = none := by
    obtain ⟨c, u, hcons, hc⟩ := hw.head t
    have hfirst : '-' ≠ c := by
      rintro rfl
      exact absurd hc (by decide)
    have hsecond : 'I' ≠ c := by
      rintro rfl
      exact absurd hc (by decide)
    cases negative <;> simp [word?, sign, hcons, hfirst, hsecond]
  have hword := @word?_number w hw t negative
  simp only [readAtom, hinfinite, hword (l := "null") rfl (by decide) (by decide),
    hword (l := "true") rfl (by decide) (by decide), hword (l := "false") rfl (by decide) (by decide),
    hword (l := "NaN") rfl (by decide) (by decide), hword (l := "Infinity") rfl (by decide) (by decide),
    Option.map_none]
  rfl

theorem readShortAtom_number (ht : NoDigit t) (negative : Bool)
    (hshort : w.length ≤ digitLimit ∨ (readFraction t).1 ≠ [] ∨ (readExponent (readFraction t).2).isSome) :
    readShortAtom (sign negative ++ (w ++ t)) = .ok (readRemainder negative w t) := by
  have hread : orMalformed (readAtom (sign negative ++ (w ++ t))) = .ok (readRemainder negative w t) := by
    rw [readAtom_number hw, readNumber_eq hw ht]
    rfl
  have hcount : wholeDigits (sign negative ++ (w ++ t))
      = if (readFraction t).1.isEmpty && (readExponent (readFraction t).2).isNone then some w.length
        else none := by
    simp [wholeDigits, hw.cutSign_eq, hw.wholePart_eq ht]
  rw [readShortAtom, hcount]
  split
  case h_1 n hn =>
    rw [if_neg, hread]
    by_cases hcond : (readFraction t).1.isEmpty && (readExponent (readFraction t).2).isNone
    · rw [if_pos hcond] at hn
      simp only [Bool.and_eq_true, List.isEmpty_iff, Option.isNone_iff_eq_none] at hcond
      simp only [hcond.1, hcond.2, ne_eq, not_true_eq_false, Option.isSome_none, Bool.false_eq_true, or_self,
        or_false] at hshort
      have hlength := Option.some.inj hn
      omega
    · rw [if_neg hcond] at hn
      exact absurd hn (by simp)
  case h_2 => exact hread

end

theorem readFraction_of_ends (h : Ends rest) : readFraction rest = ([], rest) := by
  unfold readFraction
  split
  case h_1 r => exact absurd (h '.' (by simp)) (by decide)
  case h_2 => rfl

theorem readExponent_of_ends (h : Ends rest) : readExponent rest = none := by
  cases rest with
  | nil => rfl
  | cons c r =>
    have hc := h c (by simp)
    have he : c ≠ 'e' ∧ c ≠ 'E' := by constructor <;> rintro rfl <;> exact absurd hc (by decide)
    simp [readExponent, he.1, he.2]

theorem Ends.noDigit (h : Ends rest) : NoDigit rest := by
  intro c hc
  rcases h c hc with rfl | rfl | rfl | rfl <;> decide

theorem intText_toList {n : Int} (h : intText n = .ok s) :
    s.toList = sign (n < 0) ++ Nat.toDigits 10 n.natAbs ∧ (Nat.toDigits 10 n.natAbs).length ≤ digitLimit := by
  unfold intText at h
  split at h
  case isTrue => cases h
  case isFalse hlength =>
    cases h
    have hnat : (toString n.natAbs).length = (Nat.toDigits 10 n.natAbs).length := by
      rw [Nat.toString_eq_repr, Nat.repr, String.length_ofList]
    refine ⟨?_, by omega⟩
    cases n with
    | ofNat k =>
      have htext : toString (Int.ofNat k) = Nat.repr k := rfl
      rw [htext]
      simp [sign, Nat.repr]
    | negSucc k =>
      have htext : toString (Int.negSucc k) = "-" ++ Nat.repr (k + 1) := rfl
      have hnegative : Int.negSucc k < 0 := Int.negSucc_lt_zero k
      simp [htext, sign, hnegative, Nat.repr]

/-- Numbers are written in characters that stand on a line. -/
theorem toNat_of_isDigit {c : Char} (h : isDigit c = true) : 0x20 ≤ c.toNat := by
  simp only [isDigit, Bool.and_eq_true, decide_eq_true_eq, Char.le_def, UInt32.le_iff_toNat_le] at h
  have hzero : '0'.val.toNat = 0x30 := rfl
  have hc : c.val.toNat = c.toNat := rfl
  omega

/-- A text that stands on a line and is read as a value that is no container, whatever stands behind it. -/
structure Atom (v : Value) (u : List Char) : Prop where
  head : ∃ c r, u = c :: r ∧ (isDigit c = true ∨ c = '-' ∨ c.isAlpha = true)
  high : ∀ c ∈ u, 0x20 ≤ c.toNat
  read : ∀ {rest : List Char}, Ends rest → readShortAtom (u ++ rest) = .ok (v, rest)

/-- A number starts with its sign or a digit. -/
theorem Whole.atom {v : Value} (hw : Whole w) (negative : Bool) (ht : ∀ c ∈ t, 0x20 ≤ c.toNat)
    (hread : ∀ {rest : List Char}, Ends rest → readShortAtom (sign negative ++ (w ++ t) ++ rest) = .ok (v, rest)) :
    Atom v (sign negative ++ (w ++ t)) where
  head := by
    obtain ⟨c, r, hcons, hc⟩ := hw.head t
    rw [hcons]
    cases negative with
    | false => exact ⟨c, r, rfl, .inl hc⟩
    | true => exact ⟨'-', c :: r, rfl, .inr (.inl rfl)⟩
  high c hc := by
    rcases mem_append.mp hc with hc | hc
    · cases negative <;> simp_all [sign]
    · exact (mem_append.mp hc).elim (fun hc => toNat_of_isDigit (hw.digits c hc)) (ht c)
  read := hread

theorem atom_int {n : Int} (h : intText n = .ok s) : Atom (.int n) s.toList := by
  obtain ⟨hs, hlength⟩ := intText_toList h
  rw [hs, ← append_nil (Nat.toDigits 10 n.natAbs)]
  refine (whole_toDigits _).atom _ (by simp) fun hrest => ?_
  rw [append_nil, append_assoc, readShortAtom_number (whole_toDigits _) hrest.noDigit _ (.inl hlength),
    readRemainder, readFraction_of_ends hrest]
  simp only [readExponent_of_ends hrest, isEmpty_nil, ↓reduceIte, digitsValue_toDigits,
    decide_eq_true_eq, Except.ok.injEq, Prod.mk.injEq, Value.int.injEq, and_true]
  omega

/-! ## Fractions and exponents -/

/-- A fraction behind its point; without digits there is no point. -/
def point (f : List Char) : List Char := if f = [] then [] else '.' :: f

variable (e : Int)

/-- The digits of an exponent, at least two. -/
def exponentPlaces : List Char := (if e.natAbs < 10 then ['0'] else []) ++ Nat.toDigits 10 e.natAbs

/-- An exponent behind its letter and its sign. -/
def exponentMark : Option Int → List Char
  | none => []
  | some e => 'e' :: (if e < 0 then '-' else '+') :: exponentPlaces e

/-- A numeral with a fraction or an exponent, and what it stands for. -/
structure Numeral (u : List Char) (d : Nat) (e : Int) : Prop where
  parts : ∃ w f x, Whole w ∧ (∀ c ∈ f, isDigit c = true) ∧ u = w ++ (point f ++ exponentMark x)
    ∧ (f ≠ [] ∨ x ≠ none) ∧ d = digitsValue (w ++ f) ∧ e = x.getD 0 - f.length

theorem digitsValue_append (a b : List Char) :
    digitsValue (a ++ b) = digitsValue a * 10 ^ b.length + digitsValue b := by
  induction b using reverseRecOn with
  | nil => simp [digitsValue]
  | append_singleton b c ih =>
    have hstep : ∀ l, digitsValue (l ++ [c]) = digitsValue l * 10 + (c.toNat - '0'.toNat) := by simp [digitsValue]
    rw [← append_assoc, hstep, hstep, ih, length_append, length_singleton, pow_succ]
    ring

theorem digitsValue_zeros (n : Nat) : digitsValue (replicate n '0') = 0 := by
  induction n with
  | zero => rfl
  | succ n ih =>
    rw [replicate_succ, ← singleton_append, digitsValue_append, ih]
    simp [digitsValue]

theorem isDigit_exponentPlaces : ∀ c ∈ exponentPlaces e, isDigit c = true := by
  intro c hc
  rcases mem_append.mp hc with hc | hc
  · split at hc
    · rw [mem_singleton.mp hc]
      decide
    · simp at hc
  · exact (whole_toDigits _).digits c hc

theorem readExponent_mark (hrest : NoDigit rest) :
    readExponent (exponentMark (some e) ++ rest) = some (e, rest) := by
  have hdigits := isDigit_exponentPlaces e
  have hvalue : digitsValue (exponentPlaces e) = e.natAbs := by
    rw [exponentPlaces, digitsValue_append, digitsValue_toDigits]
    split <;> simp [digitsValue]
  have hne : exponentPlaces e ≠ [] := by simp [exponentPlaces, Nat.toDigits_ne_nil]
  have hread : ∀ negative, exponentDigits negative (exponentPlaces e ++ rest)
      = some (if negative then -(e.natAbs : Int) else e.natAbs, rest) := by
    intro negative
    simp [exponentDigits, takeWhile_digits hdigits hrest, dropWhile_digits hdigits hrest, hne, hvalue]
  by_cases hneg : e < 0
  · have := hread true
    simp only [exponentMark, hneg, ↓reduceIte, cons_append, readExponent, beq_self_eq_true, Bool.true_or, this,
      Option.some.injEq, Prod.mk.injEq, and_true]
    omega
  · have := hread false
    simp only [exponentMark, hneg, ↓reduceIte, cons_append, readExponent, beq_self_eq_true, Bool.true_or, this,
      Option.some.injEq, Prod.mk.injEq, and_true, Bool.false_eq_true]
    omega

theorem noDigit_exponentMark (x : Option Int) (hrest : NoDigit rest) : NoDigit (exponentMark x ++ rest) := by
  cases x with
  | none => exact hrest
  | some e =>
    intro c hc
    simp only [exponentMark, cons_append, head?_cons, Option.mem_def, Option.some.injEq] at hc
    rw [← hc]
    decide

theorem readFraction_point {f : List Char} (hf : ∀ c ∈ f, isDigit c = true) (x : Option Int)
    (hrest : Ends rest) : readFraction (point f ++ (exponentMark x ++ rest)) = (f, exponentMark x ++ rest) := by
  by_cases hne : f = []
  · subst hne
    cases x with
    | none => exact readFraction_of_ends hrest
    | some e => rfl
  · have hdigit := noDigit_exponentMark x hrest.noDigit
    simp [point, if_neg hne, readFraction, takeWhile_digits hf hdigit, dropWhile_digits hf hdigit]

theorem Numeral.read {u : List Char} {d : Nat} {e : Int} (h : Numeral u d e) (negative : Bool) (hrest : Ends rest) :
    readShortAtom (sign negative ++ (u ++ rest)) = .ok (.float (Decimal.ofDigits negative d e), rest) := by
  obtain ⟨w, f, x, hw, hf, rfl, hsome, rfl, rfl⟩ := h.parts
  have hdigit : NoDigit (point f ++ (exponentMark x ++ rest)) := by
    by_cases hne : f = []
    · simpa [point, hne] using noDigit_exponentMark x hrest.noDigit
    · intro c hc
      simp only [point, if_neg hne, cons_append, head?_cons, Option.mem_def, Option.some.injEq] at hc
      rw [← hc]
      decide
  have hfraction := readFraction_point hf x hrest
  rw [append_assoc, append_assoc, readShortAtom_number hw hdigit]
  · rw [readRemainder, hfraction]
    cases x with
    | none =>
      have hne : f ≠ [] := by simpa using hsome
      have hnone : readExponent (exponentMark none ++ rest) = none := readExponent_of_ends hrest
      simp only [hnone, List.isEmpty_iff, hne, ↓reduceIte, Option.getD_none, Int.zero_sub]
      rfl
    | some e => simp [readExponent_mark e hrest.noDigit]
  · right
    rw [hfraction]
    rcases hsome with hsome | hsome
    · exact .inl hsome
    · obtain ⟨e, rfl⟩ := Option.ne_none_iff_exists'.mp hsome
      right
      simp [readExponent_mark e hrest.noDigit]

/-- Digits with the point shifted between them. -/
theorem Whole.take (hw : Whole w) (hlead : w.head? ≠ some '0') (hn : 0 < n) : Whole (w.take n) where
  ne_nil h := hw.ne_nil (by cases w <;> simp_all [take_eq_nil_iff])
  digits c hc := hw.digits c (mem_of_mem_take hc)
  lead h := by
    obtain ⟨c, r, rfl⟩ := exists_cons_of_ne_nil hw.ne_nil
    obtain ⟨n, rfl⟩ := Nat.exists_eq_add_one_of_ne_zero hn.ne'
    simp_all

theorem Whole.append {z : List Char} (hw : Whole w) (hlead : w.head? ≠ some '0')
    (hz : ∀ c ∈ z, isDigit c = true) : Whole (w ++ z) where
  ne_nil := by simp [hw.ne_nil]
  digits c hc := (mem_append.mp hc).elim (hw.digits c) (hz c)
  lead h := by
    obtain ⟨c, r, rfl⟩ := exists_cons_of_ne_nil hw.ne_nil
    simp_all

theorem isDigit_zeros : ∀ c ∈ replicate n '0', isDigit c = true := by
  intro c hc
  rw [eq_of_mem_replicate hc]
  decide

section Layouts

variable {ds : List Char} (hds : Whole ds) (hlead : ds.head? ≠ some '0')
include hds

include hlead in
/-- Zeros fill the places up to the point. -/
theorem numeral_whole (n : Nat) :
    Numeral (ds ++ replicate n '0' ++ ['.', '0']) (digitsValue ds * 10 ^ (n + 1)) (-1) := by
  refine ⟨ds ++ replicate n '0', ['0'], none, hds.append hlead isDigit_zeros, by simp [isDigit], ?_, by simp, ?_, rfl⟩
  · simp [point, exponentMark]
  · rw [digitsValue_append, digitsValue_append, digitsValue_zeros, pow_succ]
    simp [digitsValue]
    ring

include hlead in
/-- The point stands between two digits. -/
theorem numeral_inner (hn : 0 < n) (hlt : n < ds.length) :
    Numeral (ds.take n ++ '.' :: ds.drop n) (digitsValue ds) ((n : Int) - ds.length) := by
  have hne : ds.drop n ≠ [] := by simpa using hlt
  refine ⟨ds.take n, ds.drop n, none, hds.take hlead hn, fun c hc => hds.digits c (mem_of_mem_drop hc), ?_,
    .inl hne, ?_, ?_⟩
  · rw [point, if_neg hne, exponentMark, append_nil]
  · rw [take_append_drop]
  · rw [length_drop, Option.getD_none]
    omega

/-- The point stands before all digits. -/
theorem numeral_small (n : Nat) :
    Numeral ('0' :: '.' :: (replicate n '0' ++ ds)) (digitsValue ds) (-((n : Int) + ds.length)) := by
  have hne : replicate n '0' ++ ds ≠ [] := by simp [hds.ne_nil]
  refine ⟨['0'], replicate n '0' ++ ds, none, ⟨by simp, by simp [isDigit], by simp⟩, ?_, ?_, .inl hne, ?_, ?_⟩
  · exact fun c hc => (mem_append.mp hc).elim (isDigit_zeros c) (hds.digits c)
  · simp only [point, if_neg hne, exponentMark, append_nil, singleton_append]
  · rw [digitsValue_append, digitsValue_append, digitsValue_zeros]
    simp [digitsValue]
  · rw [length_append, length_replicate, Option.getD_none]
    omega

include hlead in
/-- The exponent is written out, behind the first digit and the others. -/
theorem numeral_exponent (e : Int) :
    Numeral (ds.take 1 ++ (point (ds.drop 1) ++ exponentMark (some e))) (digitsValue ds) (e + 1 - ds.length) := by
  have hpos : 0 < ds.length := length_pos_iff.mpr hds.ne_nil
  refine ⟨ds.take 1, ds.drop 1, some e, hds.take hlead (by omega), fun c hc => hds.digits c (mem_of_mem_drop hc),
    rfl, by simp, ?_, ?_⟩
  · rw [take_append_drop]
  · rw [length_drop, Option.getD_some]
    omega

end Layouts

theorem toList_toString (n : Nat) : (toString n).toList = Nat.toDigits 10 n := by
  rw [Nat.toString_eq_repr, Nat.repr, String.toList_ofList]

theorem exponentMark_eq : exponentMark (some e) = ("e" ++ (if e < 0 then "-" else "+")
    ++ if (toString e.natAbs).length < 2 then "0" ++ toString e.natAbs else toString e.natAbs).toList := by
  have hlength : (toString e.natAbs).length < 2 ↔ e.natAbs < 10 := by
    rw [← String.length_toList, toList_toString, Nat.lt_succ_iff]
    exact Nat.length_toDigits_le_iff (by decide) (by decide)
  simp only [hlength, exponentMark, exponentPlaces, String.toList_append]
  split <;> split <;> simp

theorem numeral_render {d : Decimal.Digits} (hd : 0 < d.digits) :
    ∃ m e, Numeral (Decimal.Layout.render {} d).toList m e
      ∧ Decimal.nearestDigits m e = Decimal.nearestDigits d.digits d.exponent := by
  obtain ⟨digits, exponent⟩ := d
  have hwhole := whole_toDigits digits
  have hlead := head?_toDigits hd
  have hvalue := digitsValue_toDigits digits
  have hstring := toList_toString digits
  have hlength := String.length_toList (s := toString digits)
  have hpos : 0 < (Nat.toDigits 10 digits).length := length_pos_iff.mpr hwhole.ne_nil
  unfold Decimal.Layout.render
  simp only [← hlength]
  generalize toString digits = t at hstring hlength ⊢
  rw [hstring]
  generalize Nat.toDigits 10 digits = ds at hwhole hlead hvalue hstring hpos ⊢
  subst hvalue
  split
  · next hsize =>
    split
    · next hexp =>
      refine ⟨digitsValue ds * 10 ^ (exponent.toNat + 1), -1, ?_, Decimal.nearestDigits_point hd hexp ?_⟩
      · simpa [hstring] using numeral_whole hwhole hlead exponent.toNat
      · simp only [Bool.and_eq_true, decide_eq_true_eq] at hsize
        omega
    · refine ⟨_, exponent, ?_, rfl⟩
      split
      · next hexp hpoint =>
        have hnumeral := numeral_inner hwhole hlead (n := (exponent + ds.length - 1).toNat + 1) (by omega) (by omega)
        rw [show (((exponent + ds.length - 1).toNat + 1 : Nat) : Int) - ds.length = exponent by omega] at hnumeral
        simpa [hstring] using hnumeral
      · next hexp hpoint =>
        have hnumeral := numeral_small hwhole ((exponent + ds.length - 1).natAbs - 1)
        rw [show -((((exponent + ds.length - 1).natAbs - 1 : Nat) : Int) + ds.length) = exponent by omega] at hnumeral
        simpa [hstring] using hnumeral
  · refine ⟨_, exponent, ?_, rfl⟩
    have hnumeral := numeral_exponent hwhole hlead (exponent + ds.length - 1)
    rw [exponentMark_eq, show exponent + (ds.length : Int) - 1 + 1 - ds.length = exponent by omega] at hnumeral
    simp only [beq_iff_eq]
    split
    · next hone =>
      have htake : ds.take 1 = ds := take_of_length_le (by omega)
      have hdrop : ds.drop 1 = [] := drop_of_length_le (by omega)
      simpa [htake, hdrop, point, hstring] using hnumeral
    · next hone =>
      have hne : ds.drop 1 ≠ [] := by
        intro hnil
        have := drop_eq_nil_iff.mp hnil
        omega
      rw [point, if_neg hne] at hnumeral
      have hdot : ".".toList = ['.'] := rfl
      simpa only [String.toList_append, hstring, hdot, String.Slice.toString, String.toList_copy_take,
        String.toList_copy_drop, append_assoc, cons_append, nil_append] using hnumeral

theorem numeral_zero : Numeral ['0', '.', '0'] 0 (-1) :=
  ⟨['0'], ['0'], none, ⟨by simp, by simp [isDigit], by simp⟩, by simp [isDigit], rfl, by simp, rfl, rfl⟩

theorem floatText_double {x : Float} {negative : Bool} {m : ℕ} {q : ℤ} (hlegal : Decimal.Legal m q)
    (hparts : Decimal.parts x = .finite negative m q) :
    ∃ u d e, (floatText x).toList = sign negative ++ u ∧ Numeral u d e ∧ x = Decimal.ofDigits negative d e := by
  obtain ⟨hdigits, hread⟩ := Decimal.shortestDigits_read hlegal
  obtain ⟨d, e, hnumeral, hsame⟩ := numeral_render hdigits
  have hm : (m == 0) = false := by simpa using hlegal.pos.ne'
  refine ⟨_, d, e, ?_, hnumeral, ?_⟩
  · simp only [floatText, Decimal.shortest, Decimal.render, hparts, hm, Bool.false_eq_true, ↓reduceIte,
      String.toList_append]
    cases negative <;> rfl
  · rw [Decimal.ofDigits, hsame, hread, Decimal.signed_of_parts hparts]

theorem toNat_exponentMark (x : Option Int) : ∀ c ∈ exponentMark x, 0x20 ≤ c.toNat := by
  cases x with
  | none => simp [exponentMark]
  | some e =>
    intro c hc
    simp only [exponentMark, mem_cons] at hc
    rcases hc with rfl | rfl | hc
    · decide
    · split <;> decide
    · exact toNat_of_isDigit (isDigit_exponentPlaces e c hc)

theorem Numeral.atom {u : List Char} {d : Nat} {e : Int} (h : Numeral u d e) (negative : Bool) :
    Atom (.float (Decimal.ofDigits negative d e)) (sign negative ++ u) := by
  obtain ⟨w, f, x, hw, hf, rfl, -⟩ := h.parts
  refine hw.atom negative (fun c hc => ?_) fun hrest => by rw [append_assoc, h.read negative hrest]
  rcases mem_append.mp hc with hc | hc
  · unfold point at hc
    split at hc
    · cases hc
    · rcases mem_cons.mp hc with rfl | hc
      · decide
      · exact toNat_of_isDigit (hf c hc)
  · exact toNat_exponentMark x c hc

/-- The text of a double is one of three words or a numeral that stands for it. -/
theorem atom_float (x : Float) : Atom (.float x) (floatText x).toList := by
  rcases Decimal.float_cases x with (rfl | rfl | rfl) | (rfl | rfl) | ⟨negative, m, q, hlegal, hparts⟩
  · rw [show floatText (0.0 / 0.0) = "NaN" by decide]
    exact ⟨⟨'N', _, rfl, by decide⟩, all_iff_forall_prop.mp (by decide), fun _ => rfl⟩
  · rw [show floatText (1.0 / 0.0) = "Infinity" by decide]
    exact ⟨⟨'I', _, rfl, by decide⟩, all_iff_forall_prop.mp (by decide), fun _ => rfl⟩
  · rw [show floatText (-1.0 / 0.0) = "-Infinity" by decide]
    exact ⟨⟨'-', _, rfl, by decide⟩, all_iff_forall_prop.mp (by decide), fun _ => rfl⟩
  · have hzero : Decimal.ofDigits false 0 (-1) = 0.0 := by decide
    rw [show floatText 0.0 = "0.0" by decide, ← hzero]
    exact numeral_zero.atom false
  · have hzero : Decimal.ofDigits true 0 (-1) = -0.0 := by decide
    rw [show floatText (-0.0) = "-0.0" by decide, ← hzero]
    exact numeral_zero.atom true
  · obtain ⟨u, d, e, htext, hnumeral, hvalue⟩ := floatText_double hlegal hparts
    rw [htext, hvalue]
    exact hnumeral.atom negative

end SecScan.Json
