import SecScan.Proofs.Json.Atoms

/-!
What is written is read back: the text of a value is read as its image, if it has no more levels than
can be read (`parse_write`). Tuples come back as lists, and keys as texts.
-/

namespace SecScan.Json

open List

variable {p q : Prop} {c close : Char}
variable (ascii : Bool) {b b' rest tail u u' : List Char} {v : Value} {es : Entries}
  {x : Value × List Char} {l : List Value} {k : String} {r : Except Flaw (Value × List Char)}

/-! ## What is left of a value in its text -/

mutual

/-- The value that is read from the text of a value: tuples come back as lists, keys as texts, and of
two keys with the same text the later value counts. -/
def image : Value → Value
  | .list l => .list (imageAll l)
  | .tuple l => .list (imageAll l)
  | .map es => .obj (imageFields [] es)
  | v => v

def imageAll : List Value → List Value
  | [] => []
  | v :: l => image v :: imageAll l

def imageFields (fields : Fields) : Entries → Fields
  | [] => fields
  | (k, v) :: es => imageFields (match keyText k with
    | .ok k => putField k (image v) fields
    | .error _ => fields) es

end

mutual

/-- How many containers stand in one another. -/
def depth : Value → Nat
  | .list l => depthAll l + 1
  | .tuple l => depthAll l + 1
  | .map es => depthFields es + 1
  | _ => 0

def depthAll : List Value → Nat
  | [] => 0
  | v :: l => max (depth v) (depthAll l)

def depthFields : Entries → Nat
  | [] => 0
  | (_, v) :: es => max (depth v) (depthFields es)

end

/-! ## Texts that are read as values -/

/-- Styles whose separators are a mark and blanks. -/
structure Style.Blank (st : Style) : Prop where
  item : ∃ b, st.itemSeparator.toList = ',' :: b ∧ b.all isBlank
  key : ∃ b, st.keySeparator.toList = ':' :: b ∧ b.all isBlank

/-- Styles that also keep a property of characters. -/
structure Style.Keeps (st : Style) (P : Char → Prop) : Prop extends st.Blank where
  high : ∀ c, 0x20 ≤ c.toNat → P c
  line : st.indent = none ∨ P '\n'
  items : ∀ c ∈ st.itemSeparator.toList, P c
  keys : ∀ c ∈ st.keySeparator.toList, P c

theorem exists_succ_of_lt {k n : Nat} (h : k < n) : ∃ m, n = m + 1 :=
  Nat.exists_eq_add_one_of_ne_zero (Nat.ne_of_gt (Nat.zero_lt_of_lt h))

/-- A reading that succeeds if the levels suffice, and otherwise stops because they do not. -/
def Outcome (fits : Prop) (x : Value × List Char) (r : Except Flaw (Value × List Char)) : Prop :=
  (fits → r = .ok x) ∧ (¬ fits → ∃ inMap, r = .error (.tooDeep inMap))

theorem Outcome.of_ok {fits : Prop} (h : fits) : Outcome fits x (.ok x) := ⟨fun _ => rfl, fun hn => absurd h hn⟩

/-- Two readings one after the other. -/
theorem Outcome.bind {y : Value × List Char}
    {f : Value × List Char → Except Flaw (Value × List Char)} (hr : Outcome p x r) (hf : Outcome q y (f x)) :
    Outcome (p ∧ q) y (r >>= f) := by
  constructor
  · rintro ⟨hp, hq⟩
    rw [hr.1 hp]
    exact hf.1 hq
  · intro hn
    by_cases hp : p
    · obtain ⟨inMap, h⟩ := hf.2 fun hq => hn ⟨hp, hq⟩
      exact ⟨inMap, by rw [hr.1 hp]; exact h⟩
    · obtain ⟨inMap, h⟩ := hr.2 hp
      exact ⟨inMap, by rw [h]; rfl⟩

theorem Outcome.congr (h : Outcome p x r) (hpq : p ↔ q) : Outcome q x r :=
  ⟨fun hq => h.1 (hpq.mpr hq), fun hq => h.2 fun hp => hq (hpq.mp hp)⟩

/-- A text that is read as a value, whatever stands behind it. -/
structure Reads (v : Value) (u : List Char) : Prop where
  head : ∃ c r, u = c :: r ∧ isBlank c = false ∧ c ≠ ']' ∧ c ≠ '\x7d'
  read : ∀ (fuel levels : Nat) {rest : List Char}, Ends rest → u.length < fuel →
    Outcome (depth v ≤ levels) (image v, rest) (readValue fuel levels (u ++ rest))

/-- What closes a container: blanks and a bracket. -/
structure Closes (close : Char) (tail rest : List Char) : Prop where
  ends : Ends tail
  skip : skipBlanks tail = close :: rest

variable (fuel levels : Nat)

/-- The reading of a list behind one of its elements. -/
def afterItem (acc : List Value) (s : List Char) : Except Flaw (Value × List Char) := do
  match ← separator? ']' s with
  | .more rest => readItems fuel levels acc rest
  | .done rest => return (.list acc.reverse, rest)

theorem readItems_succ (acc : List Value) (s : List Char) : readItems (fuel + 1) levels acc s
      = (readValue fuel levels (skipBlanks s) >>= fun x => afterItem fuel levels (x.1 :: acc) x.2) := by
  rw [readItems]
  rfl

/-- The reading of a map behind one of its members. -/
def afterMember (fields : Fields) (s : List Char) :
    Except Flaw (Value × List Char) := do
  match ← separator? '\x7d' s with
  | .more rest => readMembers fuel levels fields rest
  | .done rest => return (.obj fields, rest)

theorem readMembers_succ (fields : Fields) (s : List Char) :
    readMembers (fuel + 1) levels fields s = (readKey (fuel + 1) s >>= fun k =>
      readValue fuel levels (skipBlanks k.2) >>= fun x =>
        afterMember fuel levels (putField k.1 x.1 fields) x.2) := by
  rw [readMembers]
  rfl

structure ReadsRest (l : List Value) (u : List Char) : Prop where
  head : ∀ c ∈ u.head?, c = ','
  read : ∀ (fuel levels : Nat) (acc : List Value) {tail rest : List Char}, Closes ']' tail rest → u.length < fuel →
    Outcome (depthAll l ≤ levels) (.list (acc.reverse ++ imageAll l), rest) (afterItem fuel levels acc (u ++ tail))

structure ReadsFields (es : Entries) (u : List Char) : Prop where
  head : ∀ c ∈ u.head?, c = ','
  read : ∀ (fuel levels : Nat) (fields : Fields) {tail rest : List Char},
    Closes '\x7d' tail rest → u.length < fuel →
    Outcome (depthFields es ≤ levels) (.obj (imageFields fields es), rest) (afterMember fuel levels fields (u ++ tail))

/-! ## Blanks -/

theorem skipBlanks_append {s : List Char} (hb : b.all isBlank) : skipBlanks (b ++ s) = skipBlanks s := by
  simp only [skipBlanks]
  rw [dropWhile_append_of_pos]
  simpa using hb

theorem skipBlanks_nil : skipBlanks [] = [] := rfl

theorem skipBlanks_cons (hc : isBlank c = false) (s : List Char) : skipBlanks (c :: s) = c :: s := by
  simp [skipBlanks, hc]

theorem Reads.skipBlanks_eq (hv : Reads v u) (hb : b.all isBlank)
    (rest : List Char) : skipBlanks (b ++ (u ++ rest)) = u ++ rest := by
  obtain ⟨c, r, rfl, hc, -, -⟩ := hv.head
  rw [skipBlanks_append hb, cons_append, skipBlanks_cons hc]

theorem Closes.ends_append (htail : Closes close tail rest) (hu : ∀ c ∈ u.head?, c = ',') : Ends (u ++ tail) := by
  intro c hc
  cases u with
  | nil => exact htail.ends c hc
  | cons d u => exact .inl (hu c hc)

theorem Closes.separator? (htail : Closes close tail rest)
    (hcomma : close ≠ ',') : separator? close tail = .ok (.done rest) := by
  simp [Json.separator?, htail.skip, hcomma]

theorem separator?_comma (close : Char) (s : List Char) : separator? close (',' :: s) = .ok (.more s) := by
  simp [separator?, skipBlanks, isBlank]

section styles

variable {st : Style} {P : Char → Prop} (hst : st.Keeps P)

include hst

theorem Style.Keeps.newline (level : Nat) (acc : String) :
    ∃ b, (st.newline level acc).toList = acc.toList ++ b ∧ b.all isBlank ∧ (∀ c ∈ b, P c) ∧
      ∀ close rest, close = ']' ∨ close = '\x7d' → Closes close (b ++ close :: rest) rest := by
  have hspaces : ∀ (l : List Nat) (acc : String),
      (l.foldl (fun a _ => a.push ' ') acc).toList = acc.toList ++ List.replicate l.length ' ' := by
    intro l
    induction l with
    | nil => simp
    | cons x l ih => intro acc; simp [ih, replicate_succ]
  have hskip : ∀ {b : List Char} {close : Char}, b.all isBlank → close = ']' ∨ close = '\x7d' →
      ∀ rest, skipBlanks (b ++ close :: rest) = close :: rest := by
    intro b close hb hclose rest
    rw [skipBlanks_append hb, skipBlanks_cons]
    rcases hclose with rfl | rfl <;> decide
  unfold Style.newline
  split
  case h_1 =>
    refine ⟨[], by simp, rfl, by simp, fun close rest hclose => ⟨?_, hskip rfl hclose rest⟩⟩
    intro c hc
    obtain rfl : close = c := by simpa using hc
    rcases hclose with rfl | rfl <;> simp
  case h_2 w hwidth =>
    have hblank : ('\n' :: List.replicate (w * level) ' ').all isBlank := by simp [isBlank]
    refine ⟨_, ?_, hblank, ?_, fun close rest hclose => ⟨by simp [Ends], hskip hblank hclose rest⟩⟩
    · simp [hspaces]
    · rw [forall_mem_cons]
      refine ⟨hst.line.resolve_left (by simp [hwidth]), fun c hc => ?_⟩
      rw [eq_of_mem_replicate hc]
      exact hst.high _ (by decide)

theorem Style.Keeps.between : ∃ b, st.between.toList = ',' :: b ∧ b.all isBlank ∧ ∀ c ∈ ',' :: b, P c := by
  unfold Style.between
  split
  · obtain ⟨b, hb, hblank⟩ := hst.item
    exact ⟨b, hb, hblank, hb ▸ hst.items⟩
  · exact ⟨[], rfl, rfl, by simpa using hst.high ',' (by decide)⟩

end styles

/-! ## Lists -/

theorem ReadsRest.nil : ReadsRest [] [] := by
  refine ⟨by simp, ?_⟩
  intro fuel levels acc tail rest htail hfuel
  simp only [nil_append, afterItem, htail.separator? (by decide), imageAll, append_nil]
  exact .of_ok (by simp [depthAll])

theorem readItems_cons (hv : Reads v u) (hl : ReadsRest l u') (fuel levels : Nat) (acc : List Value)
    (hb : b.all isBlank) (htail : Closes ']' tail rest) (hfuel : u.length + u'.length + 1 < fuel) :
    Outcome (max (depth v) (depthAll l) ≤ levels) (.list (acc.reverse ++ (image v :: imageAll l)), rest)
      (readItems fuel levels acc (b ++ (u ++ (u' ++ tail)))) := by
  obtain ⟨fuel, rfl⟩ := exists_succ_of_lt hfuel
  rw [readItems_succ, hv.skipBlanks_eq hb]
  have hfirst := hv.read fuel levels (htail.ends_append hl.head) (by omega)
  have hrest := hl.read fuel levels (image v :: acc) htail (by omega)
  rw [reverse_cons, append_assoc] at hrest
  exact (hfirst.bind (f := fun x => afterItem fuel levels (x.1 :: acc) x.2) hrest).congr (by omega)

theorem ReadsRest.cons (hl : ReadsRest l u')
    (hv : Reads v u) (hb : b.all isBlank) : ReadsRest (v :: l) (',' :: (b ++ (u ++ u'))) := by
  refine ⟨by simp, ?_⟩
  intro fuel levels acc tail rest htail hfuel
  simp only [length_cons, length_append] at hfuel
  simp only [cons_append, append_assoc, afterItem, separator?_comma, depthAll, imageAll]
  exact readItems_cons hv hl fuel levels acc hb htail (by omega)

theorem Reads.nil : Reads (.list []) ['[', ']'] := by
  refine ⟨⟨'[', [']'], rfl, by decide⟩, ?_⟩
  intro fuel levels rest hrest hfuel
  obtain ⟨fuel, rfl⟩ := exists_succ_of_lt hfuel
  cases levels with
  | zero => exact ⟨fun h => absurd h (by simp [depth]), fun _ => ⟨false, by simp [readValue]⟩⟩
  | succ levels =>
    have hread : readValue (fuel + 1) (levels + 1) (['[', ']'] ++ rest) = .ok (.list [], rest) := by
      simp [readValue, closed?, skipBlanks, isBlank]
    rw [hread]
    exact .of_ok (by simp [depth, depthAll])

theorem Reads.list (hv : Reads v u) (hl : ReadsRest l u') (hb : b.all isBlank)
    (hb' : ∀ rest, Closes ']' (b' ++ ']' :: rest) rest) :
    Reads (.list (v :: l)) ('[' :: (b ++ (u ++ (u' ++ (b' ++ [']']))))) := by
  refine ⟨⟨'[', _, rfl, by decide⟩, ?_⟩
  intro fuel levels rest hrest hfuel
  obtain ⟨fuel, rfl⟩ := exists_succ_of_lt hfuel
  simp only [length_cons, length_append, length_nil] at hfuel
  cases levels with
  | zero => exact ⟨fun h => absurd h (by simp [depth]), fun _ => ⟨false, by simp [readValue]⟩⟩
  | succ levels =>
    obtain ⟨c, r, hu, hc, hclose, -⟩ := hv.head
    have hopen : closed? ']' (b ++ (u ++ (u' ++ (b' ++ ']' :: rest)))) = none := by
      rw [closed?, hv.skipBlanks_eq hb, hu]
      simp [hclose]
    have hread : readValue (fuel + 1) (levels + 1) ('[' :: (b ++ (u ++ (u' ++ (b' ++ [']'])))) ++ rest)
        = readItems fuel levels [] (b ++ (u ++ (u' ++ (b' ++ ']' :: rest)))) := by
      simp [readValue, hopen]
    rw [hread]
    have hitems := readItems_cons hv hl fuel levels [] hb (hb' rest) (by omega)
    exact hitems.congr (by simp [depth, depthAll])

/-! ## Texts and maps -/

def quoted (ascii : Bool) (s : String) : List Char := '"' :: (s.toList.flatMap (escaped ascii) ++ ['"'])

theorem readString_flatMap (s : List Char) (fuel : Nat) (acc rest : List Char) (hfuel : s.length < fuel) :
    readString fuel acc (s.flatMap (escaped ascii) ++ '"' :: rest) = some (String.ofList (acc.reverse ++ s), rest) := by
  induction s generalizing fuel acc with
  | nil =>
    obtain ⟨fuel, rfl⟩ := exists_succ_of_lt hfuel
    simp [readString]
  | cons c s ih =>
    obtain ⟨fuel, rfl⟩ := exists_succ_of_lt hfuel
    rw [flatMap_cons, append_assoc, readString_escaped, ih _ _ (by simpa using hfuel)]
    simp

theorem escaped_ne_nil (c : Char) : escaped ascii c ≠ [] := by
  obtain ⟨u, hu, -⟩ := unicodeEscape_unicodeUnits c []
  unfold escaped escapeChar
  repeat' split
  all_goals simp [hu]

theorem length_le_flatMap (s : List Char) : s.length ≤ (s.flatMap (escaped ascii)).length := by
  induction s with
  | nil => simp
  | cons c s ih =>
    have hc := length_pos_iff.mpr (escaped_ne_nil ascii c)
    simp only [flatMap_cons, length_cons, length_append]
    omega

theorem readString_quoted (s : String) {fuel : Nat} (rest : List Char) (hfuel : (quoted ascii s).length ≤ fuel + 1) :
    readString fuel [] (s.toList.flatMap (escaped ascii) ++ '"' :: rest) = some (s, rest) := by
  have hlength := length_le_flatMap ascii s.toList
  simp only [quoted, length_cons, length_append, length_nil] at hfuel
  rw [readString_flatMap ascii _ _ _ _ (by omega)]
  simp

theorem Reads.text (s : String) : Reads (.text s) (quoted ascii s) := by
  refine ⟨⟨'"', _, rfl, by decide⟩, ?_⟩
  intro fuel levels rest hrest hfuel
  obtain ⟨fuel, rfl⟩ := exists_succ_of_lt hfuel
  have hread : readValue (fuel + 1) levels (quoted ascii s ++ rest) = .ok (.text s, rest) := by
    have hstring := readString_quoted ascii s rest (Nat.le_of_lt (Nat.lt_succ_of_lt hfuel))
    simp [quoted, readValue, hstring, orMalformed, Except.map]
  rw [hread]
  exact .of_ok (by simp [depth])

theorem readKey_quoted (k : String) {fuel : Nat} (hb : b.all isBlank)
    (s : List Char) (hfuel : (quoted ascii k).length ≤ fuel + 1) :
    readKey fuel (b ++ (quoted ascii k ++ ':' :: s)) = .ok (k, s) := by
  have hstring := readString_quoted ascii k (':' :: s) hfuel
  have hskip : skipBlanks (b ++ (quoted ascii k ++ ':' :: s)) = quoted ascii k ++ ':' :: s := by
    rw [skipBlanks_append hb, quoted, cons_append, skipBlanks_cons (by decide)]
  have hcolon : skipBlanks (':' :: s) = ':' :: s := skipBlanks_cons (by decide) s
  rw [readKey, hskip]
  simp [quoted, hstring, orMalformed, hcolon, bind, Except.bind, pure, Except.pure]

theorem ReadsFields.nil : ReadsFields [] [] := by
  refine ⟨by simp, ?_⟩
  intro fuel levels fields tail rest htail hfuel
  simp only [nil_append, afterMember, htail.separator? (by decide), imageFields]
  exact .of_ok (by simp [depthFields])

theorem readMembers_cons {x : Value} (hk : keyText x = .ok k) (hv : Reads v u) (hes : ReadsFields es u')
    (fuel levels : Nat) (fields : Fields) (hb : b.all isBlank)
    (hb' : b'.all isBlank) (htail : Closes '\x7d' tail rest)
    (hfuel : (quoted ascii k).length + u.length + u'.length + 1 < fuel) :
    Outcome (depthFields ((x, v) :: es) ≤ levels) (.obj (imageFields fields ((x, v) :: es)), rest)
      (readMembers fuel levels fields (b ++ (quoted ascii k ++ ':' :: (b' ++ (u ++ (u' ++ tail)))))) := by
  obtain ⟨fuel, rfl⟩ := exists_succ_of_lt hfuel
  rw [readMembers_succ, readKey_quoted ascii k hb _ (by omega)]
  have hvalue := hv.read fuel levels (htail.ends_append hes.head) (by omega)
  have hrest := hes.read fuel levels (putField k (image v) fields) htail (by omega)
  rw [← hv.skipBlanks_eq hb'] at hvalue
  simp only [imageFields, hk, depthFields]
  exact (hvalue.bind (f := fun y => afterMember fuel levels (putField k y.1 fields) y.2) hrest).congr (by omega)

theorem ReadsFields.cons (hes : ReadsFields es u') (ascii : Bool) {x : Value} (hk : keyText x = .ok k) (hv : Reads v u)
    (hb : b.all isBlank) (hb' : b'.all isBlank) :
    ReadsFields ((x, v) :: es) (',' :: (b ++ (quoted ascii k ++ ':' :: (b' ++ (u ++ u'))))) := by
  refine ⟨by simp, ?_⟩
  intro fuel levels fields tail rest htail hfuel
  simp only [length_cons, length_append] at hfuel
  simp only [cons_append, append_assoc, afterMember, separator?_comma]
  exact readMembers_cons ascii hk hv hes fuel levels fields hb hb' htail (by omega)

theorem Reads.emptyMap : Reads (.map []) ['\x7b', '\x7d'] := by
  refine ⟨⟨'\x7b', ['\x7d'], rfl, by decide⟩, ?_⟩
  intro fuel levels rest hrest hfuel
  obtain ⟨fuel, rfl⟩ := exists_succ_of_lt hfuel
  cases levels with
  | zero => exact ⟨fun h => absurd h (by simp [depth]), fun _ => ⟨true, by simp [readValue]⟩⟩
  | succ levels =>
    have hread : readValue (fuel + 1) (levels + 1) (['\x7b', '\x7d'] ++ rest) = .ok (.map [], rest) := by
      simp [readValue, closed?, skipBlanks, isBlank]
    rw [hread]
    exact .of_ok (by simp [depth, depthFields])

theorem Reads.map (hv : Reads v u) (ascii : Bool) {x : Value} (hk : keyText x = .ok k) (hes : ReadsFields es u')
    {b'' : List Char} (hb : b.all isBlank) (hb' : b'.all isBlank)
    (hb'' : ∀ rest, Closes '\x7d' (b'' ++ '\x7d' :: rest) rest) : Reads (.map ((x, v) :: es))
      ('\x7b' :: (b ++ (quoted ascii k ++ ':' :: (b' ++ (u ++ (u' ++ (b'' ++ ['\x7d']))))))) := by
  refine ⟨⟨'\x7b', _, rfl, by decide⟩, ?_⟩
  intro fuel levels rest hrest hfuel
  obtain ⟨fuel, rfl⟩ := exists_succ_of_lt hfuel
  simp only [length_cons, length_append, length_nil] at hfuel
  cases levels with
  | zero => exact ⟨fun h => absurd h (by simp [depth]), fun _ => ⟨true, by simp [readValue]⟩⟩
  | succ levels =>
    have hopen : ∀ s, closed? '\x7d' (b ++ (quoted ascii k ++ s)) = none := by
      intro s
      rw [closed?, skipBlanks_append hb, quoted, cons_append, skipBlanks_cons (by decide)]
      rfl
    have hread : readValue (fuel + 1) (levels + 1)
          ('\x7b' :: (b ++ (quoted ascii k ++ ':' :: (b' ++ (u ++ (u' ++ (b'' ++ ['\x7d'])))))) ++ rest)
        = readMembers fuel levels []
          (b ++ (quoted ascii k ++ ':' :: (b' ++ (u ++ (u' ++ (b'' ++ '\x7d' :: rest)))))) := by
      simp [readValue, hopen]
    rw [hread]
    have hmembers := readMembers_cons ascii hk hv hes fuel levels [] hb hb' (hb'' rest) (by omega)
    exact hmembers.congr (by simp [depth])

/-! ## Atoms -/

theorem readValue_atom {fuel levels : Nat} {s : List Char} (hquote : c ≠ '"') (hlist : c ≠ '[')
    (hmap : c ≠ '\x7b') : readValue (fuel + 1) levels (c :: s) = readShortAtom (c :: s) := by
  simp [readValue, hquote, hlist, hmap]

theorem Reads.of_atom (hdepth : depth v = 0) (himage : image v = v) (h : Atom v u) : Reads v u := by
  obtain ⟨⟨c, r, rfl, hc⟩, -, hread⟩ := h
  have hne : isBlank c = false ∧ c ≠ ']' ∧ c ≠ '\x7d' ∧ c ≠ '"' ∧ c ≠ '[' ∧ c ≠ '\x7b' := by
    refine ⟨?_, ?_, ?_, ?_, ?_, ?_⟩
    · by_contra hblank
      simp only [isBlank, Bool.not_eq_false, Bool.or_eq_true, beq_iff_eq] at hblank
      rcases hblank with ((rfl | rfl) | rfl) | rfl <;> exact absurd hc (by decide)
    all_goals rintro rfl; exact absurd hc (by decide)
  obtain ⟨hblank, hclose, hbrace, hquote, hlist, hmap⟩ := hne
  refine ⟨⟨c, r, rfl, hblank, hclose, hbrace⟩, ?_⟩
  intro fuel levels rest hrest hfuel
  obtain ⟨fuel, rfl⟩ := exists_succ_of_lt hfuel
  rw [himage, cons_append, readValue_atom hquote hlist hmap, ← cons_append, hread hrest]
  exact .of_ok (by omega)

theorem atom_null : Atom .null "null".toList := ⟨⟨'n', _, rfl, by decide⟩, by simp, fun _ => rfl⟩

theorem atom_bool (b : Bool) : Atom (.bool b) (boolText b).toList := by
  cases b
  · exact ⟨⟨'f', _, rfl, by decide⟩, by simp [boolText], fun _ => rfl⟩
  · exact ⟨⟨'t', _, rfl, by decide⟩, by simp [boolText], fun _ => rfl⟩

/-! ## Characters -/

theorem hexChar_mem (k : Nat) : hexChar (k % 16) ∈ "0123456789abcdef".toList := by
  have hk : k % 16 < 16 := Nat.mod_lt k (by decide)
  generalize k % 16 = i at hk
  interval_cases i <;> decide

theorem toNat_hexUnit (n : Nat) : ∀ c ∈ (hexUnit n).toList, 0x20 ≤ c.toNat := by
  have hdigits : ∀ c ∈ "0123456789abcdef".toList, 0x20 ≤ c.toNat := by simp
  have hhex := fun k => hdigits _ (hexChar_mem k)
  intro c hc
  simp only [hexUnit, String.toList_ofList, mem_cons, not_mem_nil, or_false] at hc
  rcases hc with rfl | rfl | rfl | rfl | rfl | rfl
  · decide
  · decide
  · exact hhex _
  · exact hhex _
  · exact hhex _
  · exact hhex _

theorem toNat_unicodeUnits (n : Nat) : ∀ c ∈ (unicodeUnits n).toList, 0x20 ≤ c.toNat := by
  rw [unicodeUnits]
  by_cases hlow : n < 0x10000
  · rw [if_pos hlow]
    exact toNat_hexUnit n
  · rw [if_neg hlow]
    intro c hc
    rw [String.toList_append] at hc
    exact (mem_append.mp hc).elim (toNat_hexUnit _ c) (toNat_hexUnit _ c)

theorem toNat_escaped (c : Char) : ∀ d ∈ escaped ascii c, 0x20 ≤ d.toNat := by
  have hescapes : ∀ x ∈ escapes, 0x20 ≤ x.2.toNat := by decide
  unfold escaped escapeChar
  split
  · next e he => simpa using hescapes (c, e) (mem_of_lookup he)
  split
  · simpa using toNat_unicodeUnits c.toNat
  · next hlow =>
    simp only [Bool.or_eq_true, decide_eq_true_eq, not_or] at hlow
    simpa using hlow.1

theorem toNat_quoted (s : String) : ∀ c ∈ quoted ascii s, 0x20 ≤ c.toNat := by
  intro c hc
  simp only [quoted, mem_cons, mem_append, mem_flatMap, not_mem_nil, or_false] at hc
  rcases hc with rfl | ⟨d, -, hc⟩ | rfl
  · decide
  · exact toNat_escaped ascii d c hc
  · decide

/-! ## Whatever is written is read back -/

variable {st : Style} {P : Char → Prop}

theorem Style.Keeps.word (hst : st.Keeps P) {acc s : String} (hs : ∀ c ∈ s.toList, 0x20 ≤ c.toNat)
    (hread : Reads v s.toList) : ∃ u, (acc ++ s).toList = acc.toList ++ u ∧ Reads v u ∧ ∀ c ∈ u, P c :=
  ⟨_, String.toList_append, hread, fun c hc => hst.high c (hs c hc)⟩

theorem Style.Keeps.atom (hst : st.Keeps P) {acc s : String} (h : Atom v s.toList) (hdepth : depth v = 0 := by rfl)
    (himage : image v = v := by rfl) : ∃ u, (acc ++ s).toList = acc.toList ++ u ∧ Reads v u ∧ ∀ c ∈ u, P c :=
  hst.word h.high (.of_atom hdepth himage h)

mutual

theorem reads_writeOnto (hst : st.Keeps P) (v : Value) {level : Nat} {acc t : String}
    (h : writeOnto st level acc v = .ok t) : ∃ u, t.toList = acc.toList ++ u ∧ Reads v u ∧ ∀ c ∈ u, P c := by
  cases v with
  | null =>
    simp only [writeOnto, Except.ok.injEq] at h
    exact h ▸ hst.atom atom_null
  | bool b =>
    simp only [writeOnto, Except.ok.injEq] at h
    exact h ▸ hst.atom (atom_bool b)
  | int n =>
    simp only [writeOnto] at h
    obtain ⟨s, hs, h⟩ := map_eq_ok.mp h
    exact h ▸ hst.atom (atom_int hs)
  | float x =>
    simp only [writeOnto, Except.ok.injEq] at h
    exact h ▸ hst.atom (atom_float x)
  | text s =>
    simp only [writeOnto, Except.ok.injEq] at h
    exact ⟨_, by rw [← h, quoteOnto_toList, quoted], .text st.ascii s, fun c hc => hst.high c (toNat_quoted _ s c hc)⟩
  | bytes b => simp [writeOnto] at h
  | complex re im => simp [writeOnto] at h
  | ellipsis => simp [writeOnto] at h
  | set l => simp [writeOnto] at h
  | list l =>
    simp only [writeOnto] at h
    exact reads_writeItems hst l h
  | tuple l =>
    simp only [writeOnto] at h
    obtain ⟨u, ht, hu, hP⟩ := reads_writeItems hst l h
    exact ⟨u, ht, ⟨hu.head, hu.read⟩, hP⟩
  | map es =>
    cases es with
    | nil =>
      simp only [writeOnto, Except.ok.injEq] at h
      exact h ▸ hst.word (by simp) .emptyMap
    | cons e es =>
      obtain ⟨x, v⟩ := e
      simp only [writeOnto, writeEntries] at h
      obtain ⟨t1, h1, h⟩ := bind_eq_ok.mp h
      obtain ⟨k, hk, h1⟩ := bind_eq_ok.mp h1
      obtain ⟨t2, h2, h1⟩ := bind_eq_ok.mp h1
      obtain ⟨b, hb, hblank, hPb, -⟩ := hst.newline (level + 1) (acc.push '\x7b')
      obtain ⟨b', hb', hblank'⟩ := hst.key
      obtain ⟨u, hu, hread, hPu⟩ := reads_writeOnto hst v h2
      obtain ⟨u', hu', hfields, hPu'⟩ := reads_writeEntries hst es h1
      obtain ⟨b'', hb'', -, hPb'', hclose⟩ := hst.newline level t1
      refine ⟨_, ?_, hread.map st.ascii hk hfields hblank hblank' (hclose _ · (.inr rfl)), ?_⟩
      · rw [← Except.ok.inj h, String.toList_push, hb'', hu', hu, String.toList_append, hb', quoteOnto_toList,
          if_pos trivial, hb]
        simp [quoted]
      · have hP' := hb' ▸ hst.keys
        simp only [forall_mem_cons, forall_mem_append] at hP' ⊢
        exact ⟨hst.high _ (by decide), hPb, fun c hc => hst.high c (toNat_quoted _ k c hc), hP'.1, hP'.2, hPu, hPu',
          hPb'', hst.high _ (by decide), by simp⟩

theorem reads_writeItems (hst : st.Keeps P) (l : List Value) {level : Nat} {acc t : String}
    (h : writeItems st level acc l = .ok t) :
    ∃ u, t.toList = acc.toList ++ u ∧ Reads (.list l) u ∧ ∀ c ∈ u, P c := by
  cases l with
  | nil =>
    simp only [writeItems, Except.ok.injEq] at h
    exact h ▸ hst.word (by simp) .nil
  | cons v l =>
    simp only [writeItems] at h
    obtain ⟨t1, h1, h⟩ := bind_eq_ok.mp h
    obtain ⟨t2, h2, h⟩ := bind_eq_ok.mp h
    obtain ⟨b, hb, hblank, hPb, -⟩ := hst.newline (level + 1) (acc.push '[')
    obtain ⟨u, hu, hread, hPu⟩ := reads_writeOnto hst v h1
    obtain ⟨u', hu', hrest, hPu'⟩ := reads_writeRest hst l h2
    obtain ⟨b', hb', -, hPb', hclose⟩ := hst.newline level t2
    refine ⟨_, ?_, hread.list hrest hblank (hclose _ · (.inl rfl)), ?_⟩
    · rw [← Except.ok.inj h, String.toList_push, hb', hu', hu, hb]
      simp
    · simp only [forall_mem_cons, forall_mem_append]
      exact ⟨hst.high _ (by decide), hPb, hPu, hPu', hPb', hst.high _ (by decide), by simp⟩

theorem reads_writeRest (hst : st.Keeps P) (l : List Value) {level : Nat} {acc t : String}
    (h : writeRest st level acc l = .ok t) : ∃ u, t.toList = acc.toList ++ u ∧ ReadsRest l u ∧ ∀ c ∈ u, P c := by
  cases l with
  | nil =>
    simp only [writeRest, Except.ok.injEq] at h
    exact ⟨[], by simp [h], .nil, by simp⟩
  | cons v l =>
    simp only [writeRest] at h
    obtain ⟨t1, h1, h⟩ := bind_eq_ok.mp h
    obtain ⟨b, hb, hblank, hPb⟩ := hst.between
    obtain ⟨b', hb', hblank', hPb', -⟩ := hst.newline level (acc ++ st.between)
    obtain ⟨u, hu, hread, hPu⟩ := reads_writeOnto hst v h1
    obtain ⟨u', hu', hrest, hPu'⟩ := reads_writeRest hst l h
    refine ⟨_, ?_, hrest.cons hread (b := b ++ b') (by rw [all_append, hblank, hblank']; rfl), ?_⟩
    · rw [hu', hu, hb', String.toList_append, hb]
      simp
    · simp only [forall_mem_cons, forall_mem_append] at hPb ⊢
      exact ⟨hPb.1, ⟨hPb.2, hPb'⟩, hPu, hPu'⟩

theorem reads_writeEntries (hst : st.Keeps P) (es : Entries) {level : Nat} {acc t : String}
    (h : writeEntries st level false acc es = .ok t) :
    ∃ u, t.toList = acc.toList ++ u ∧ ReadsFields es u ∧ ∀ c ∈ u, P c := by
  cases es with
  | nil =>
    simp only [writeEntries, Except.ok.injEq] at h
    exact ⟨[], by simp [h], .nil, by simp⟩
  | cons e es =>
    obtain ⟨x, v⟩ := e
    simp only [writeEntries] at h
    obtain ⟨k, hk, h⟩ := bind_eq_ok.mp h
    obtain ⟨t1, h1, h⟩ := bind_eq_ok.mp h
    obtain ⟨b, hb, hblank, hPb⟩ := hst.between
    obtain ⟨b', hb', hblank', hPb', -⟩ := hst.newline level (acc ++ st.between)
    obtain ⟨b'', hb'', hblank''⟩ := hst.key
    obtain ⟨u, hu, hread, hPu⟩ := reads_writeOnto hst v h1
    obtain ⟨u', hu', hfields, hPu'⟩ := reads_writeEntries hst es h
    refine ⟨_, ?_, hfields.cons st.ascii hk hread (b := b ++ b')
      (by rw [all_append, hblank, hblank']; rfl) hblank'', ?_⟩
    · rw [hu', hu, String.toList_append, hb'', quoteOnto_toList, if_neg (by simp), hb', String.toList_append, hb]
      simp [quoted]
    · have hP' := hb'' ▸ hst.keys
      simp only [forall_mem_cons, forall_mem_append] at hPb hP' ⊢
      exact ⟨hPb.1, ⟨hPb.2, hPb'⟩, fun c hc => hst.high c (toNat_quoted _ k c hc), hP'.1, hP'.2, hPu, hPu'⟩

end

theorem blank_plain : Style.Blank {} := ⟨⟨[' '], rfl, rfl⟩, ⟨[' '], rfl, rfl⟩⟩

theorem blank_indented (n : Nat) : (indented n).Blank :=
  ⟨⟨[' '], by simp [indented], rfl⟩, ⟨[' '], by simp [indented], rfl⟩⟩

theorem Style.Blank.keeps (hst : st.Blank) : st.Keeps fun _ => True := ⟨hst, by simp, .inr trivial, by simp, by simp⟩

/-- On one line only characters stand that do not end it. -/
theorem keeps_plain : Style.Keeps {} fun c => 0x20 ≤ c.toNat :=
  ⟨blank_plain, fun _ h => h, .inl rfl, all_iff_forall_prop.mp (by decide), all_iff_forall_prop.mp (by decide)⟩

theorem keeps_indented (n : Nat) : (indented n).Keeps fun c => c ≠ '\r' :=
  ⟨blank_indented n, fun c h => by rintro rfl; exact absurd h (by decide), .inr (by decide),
    by simp [indented], by simp [indented]⟩

/-- A written text has the characters of its style. -/
theorem allOf_write (hst : st.Keeps P) {s : String} (h : write st v = .ok s) : ∀ c ∈ s.toList, P c := by
  obtain ⟨u, hu, -, hP⟩ := reads_writeOnto hst v h
  rw [String.toList_empty, nil_append] at hu
  exact hu ▸ hP

theorem ends_nil : Ends [] := by
  intro c hc
  cases hc

/-- A written text is read as the image of its value, unless it has too many levels. -/
theorem parse_write (hst : st.Blank) {s : String} (h : write st v = .ok s) :
    (depth v ≤ levelLimit → parse s = .ok (image v))
      ∧ (levelLimit < depth v → ∃ inMap, parse s = .error (.tooDeep inMap)) := by
  obtain ⟨u, hu, hread, -⟩ := reads_writeOnto hst.keeps v h
  rw [String.toList_empty, nil_append] at hu
  have houtcome := hread.read (s.toList.length + 1) levelLimit ends_nil (by rw [hu]; omega)
  have hskip := hread.skipBlanks_eq (b := []) rfl []
  simp only [nil_append, append_nil, ← hu] at houtcome hskip
  constructor
  · intro hdepth
    simp [parse, hskip, houtcome.1 hdepth, bind, Except.bind, pure, Except.pure, skipBlanks_nil]
  · intro hdepth
    obtain ⟨inMap, hdeep⟩ := houtcome.2 (by omega)
    exact ⟨inMap, by simp [parse, hskip, hdeep, bind, Except.bind]⟩

theorem write_map (hst : st.Blank) {s : String}
    (h : write st (.map es) = .ok s) : ∃ u, s.toList = '\x7b' :: (u ++ ['\x7d']) := by
  cases es with
  | nil =>
    simp only [write, writeOnto, Except.ok.injEq] at h
    exact ⟨[], by rw [← h]; rfl⟩
  | cons e es =>
    obtain ⟨x, v⟩ := e
    simp only [write, writeOnto, writeEntries] at h
    obtain ⟨t, ht, h⟩ := bind_eq_ok.mp h
    obtain ⟨k, hk, ht⟩ := bind_eq_ok.mp ht
    obtain ⟨t', ht', ht⟩ := bind_eq_ok.mp ht
    obtain ⟨u, hu, -⟩ := reads_writeOnto hst.keeps v ht'
    obtain ⟨u', hu', -⟩ := reads_writeEntries hst.keeps es ht
    obtain ⟨b, hb, -⟩ := hst.keeps.newline 1 ("".push '\x7b')
    obtain ⟨b', hb', -⟩ := hst.keeps.newline 0 t
    refine ⟨b ++ (quoted st.ascii k ++ (st.keySeparator.toList ++ (u ++ (u' ++ b')))), ?_⟩
    rw [← Except.ok.inj h, String.toList_push, hb', hu', hu, String.toList_append, quoteOnto_toList, if_pos trivial, hb]
    simp [quoted]

end SecScan.Json
