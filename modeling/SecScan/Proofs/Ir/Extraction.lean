import SecScan.Ir.Segment

/-!
The text of a span. A place of a text lies in one of its lines, between two characters (`Mark`). What is
extracted between two places is what leads from the text before the first to the text before the second
(`segment_between`). So texts of spans that follow each other join, and the text of the whole is the source
(`segment_append`). A reader of programs ends lines at fewer characters than the extraction does; where only
those occur, its places may be extracted as well (`segment_of_reader`).
-/

namespace SecScan.Ir

open List Text

/-! ## Bytes -/

theorem foldl_utf8Size (k : Nat) (cs : List Char) : cs.foldl (fun n c => n + c.utf8Size) k = k + byteLength cs := by
  induction cs generalizing k with
  | nil => rfl
  | cons c cs ih => rw [byteLength, foldl_cons, foldl_cons, ih, ih, Nat.zero_add, Nat.add_assoc]

@[simp] theorem byteLength_cons (c : Char) (cs : List Char) : byteLength (c :: cs) = c.utf8Size + byteLength cs := by
  rw [byteLength, foldl_cons, foldl_utf8Size, Nat.zero_add]

@[simp] theorem byteLength_append (cs ds : List Char) : byteLength (cs ++ ds) = byteLength cs + byteLength ds := by
  rw [byteLength, foldl_append, foldl_utf8Size]
  rfl

theorem eq_nil_of_byteLength_le {cs ds : List Char} (h : byteLength (cs ++ ds) ≤ byteLength cs) : ds = [] := by
  cases ds with
  | nil => rfl
  | cons c ds =>
    have := c.utf8Size_pos
    rw [byteLength_append, byteLength_cons] at h
    omega

theorem cutBytes_append (head tail : List Char) : cutBytes (byteLength head) (head ++ tail) = some (head, tail) := by
  induction head with
  | nil => cases tail <;> rfl
  | cons c head ih =>
    obtain ⟨n, hn⟩ : ∃ n, byteLength (c :: head) = n + 1 :=
      Nat.exists_eq_succ_of_ne_zero (by simp [Nat.ne_of_gt c.utf8Size_pos])
    have hrest : n + 1 - c.utf8Size = byteLength head := by
      rw [byteLength_cons] at hn
      omega
    rw [hn, cons_append, cutBytes, if_pos (by rw [byteLength_cons] at hn; omega), hrest, ih]
    rfl

theorem bytePlace_natCast {cs : List Char} {n : Nat} (h : n ≤ byteLength cs) : bytePlace cs (n : Int) = n := by
  rw [bytePlace, if_neg (by omega), Int.toNat_natCast, Nat.min_eq_left h]

/-- Of a text in three parts the middle one. -/
theorem byteSlice_middle (head part tail : List Char) :
    byteSlice (head ++ part ++ tail) (byteLength head : Nat) (some (byteLength (head ++ part) : Nat)) =
      .ok (String.ofList part) := by
  unfold byteSlice
  rw [bytePlace_natCast (by simp), Option.map_some, bytePlace_natCast (by simp)]
  dsimp
  rw [cutBytes_append]
  dsimp only
  rw [cutBytes_append]
  split
  next h =>
    rw [eq_nil_of_byteLength_le h]
  · rfl

theorem byteSlice_rest (head tail : List Char) :
    byteSlice (head ++ tail) (byteLength head : Nat) none = .ok (String.ofList tail) := by
  have h := byteSlice_middle head tail []
  rw [append_nil, byteSlice, Option.map_some, bytePlace_natCast (Nat.le_refl _)] at h
  exact h

/-! ## Places -/

/-- A place in a text of some lines, between two characters of one of them. -/
structure Mark (lines : List (List Char)) where
  line : Nat
  head : List Char
  tail : List Char
  split : lines[line]? = some (head ++ tail)

namespace Mark

variable {lines : List (List Char)} (a b : Mark lines)

def column : Nat := byteLength a.head

/-- All that stands before a place. -/
def before : List Char := (lines.take a.line).flatten ++ a.head

def Le : Prop := a.line < b.line ∨ a.line = b.line ∧ a.column ≤ b.column

/-- The span from one place to another. -/
def upTo (file : String) : Span := ⟨file, a.line + 1, a.column, b.line + 1, b.column⟩

theorem line_lt : a.line < lines.length := (List.getElem?_eq_some_iff.mp a.split).1

theorem take_succ_line : (lines.take (a.line + 1)).flatten = a.before ++ a.tail := by
  simp [take_add_one, a.split, before]

variable {a b}

theorem before_append (a : Mark lines) : a.before ++ (a.tail ++ (lines.drop (a.line + 1)).flatten) = lines.flatten := by
  rw [← append_assoc, ← take_succ_line, ← flatten_append, take_append_drop]

/-- Of two places in a line the first has less before it. -/
theorem exists_part (hline : a.line = b.line) (hcolumn : a.column ≤ b.column) :
    ∃ part, b.head = a.head ++ part ∧ a.tail = part ++ b.tail := by
  have hsplit : a.head ++ a.tail = b.head ++ b.tail :=
    Option.some.inj (a.split.symm.trans (hline ▸ b.split))
  rcases append_eq_append_iff.mp hsplit with ⟨part, hb, ha⟩ | ⟨part, ha, hb⟩
  · exact ⟨part, hb, ha⟩
  · rw [column, ha] at hcolumn
    have hnil := eq_nil_of_byteLength_le hcolumn
    exact ⟨[], by simp [ha, hnil], by simp [hb, hnil]⟩

end Mark

variable {source : String} {lines : List (List Char)}

/-- What is extracted leads from the text before the one place to the text before the other. -/
theorem segment_between (hlines : linesKeepingEnds source = lines.map String.ofList) (file : String)
    {a b : Mark lines} (h : a.Le b) :
    ∃ x, segment source (a.upTo b file) = .ok x ∧ a.before ++ x.toList = b.before := by
  have ha := a.line_lt
  have hb := b.line_lt
  have hle : a.line ≤ b.line := by
    rcases h with h | h <;> omega
  have hfirst : ((lines.map String.ofList).getD a.line "").toList = a.head ++ a.tail := by simp [getD, a.split]
  have hlast : ((lines.map String.ofList).getD b.line "").toList = b.head ++ b.tail := by simp [getD, b.split]
  have hcolumn : column (b.column : Nat) = some (b.column : Int) := by simp [column]
  have hstart : ((a.line : Int) + 1).toNat = a.line + 1 := by omega
  have hstop : ((b.line : Int) + 1).toNat = b.line + 1 := by omega
  unfold segment Mark.upTo
  rw [if_neg (by simp; omega), hlines]
  dsimp only
  rw [if_neg (by simp; omega), if_neg (by simp; omega), hstart, hstop, Nat.add_sub_cancel, Nat.add_sub_cancel, hfirst,
    hlast, hcolumn]
  rcases h with hlt | ⟨hline, hcol⟩
  · rw [if_neg (by simp; omega), Mark.column, Mark.column, byteSlice_rest]
    refine ⟨_, congrArg (fun r => r >>= fun x => pure (String.ofList a.tail ++ _ ++ x))
      (byteSlice_middle [] b.head b.tail), ?_⟩
    have hparts := take_append_drop (a.line + 1) (lines.take b.line)
    rw [take_take, Nat.min_eq_left hlt] at hparts
    have hbefore : b.before = a.before ++ a.tail ++ ((lines.take b.line).drop (a.line + 1)).flatten ++ b.head := by
      rw [← a.take_succ_line, ← flatten_append, hparts, Mark.before]
    simp [hbefore, ← map_take, ← map_drop, flatMap_map]
  · obtain ⟨part, hb, ha⟩ := Mark.exists_part hline hcol
    rw [if_pos (by simp [hline]), ha, ← append_assoc, Mark.column, Mark.column, hb]
    refine ⟨_, byteSlice_middle a.head part b.tail, ?_⟩
    simp [Mark.before, hb, hline]

variable (source : String)

/-- The lines that extraction numbers. -/
def linesOf : List (List Char) := (linesKeepingEnds source).map String.toList

theorem map_linesOf : linesKeepingEnds source = (linesOf source).map String.ofList := by
  simp [linesOf, Function.comp_def]

/-! ## Lines -/

/-- The lines of a text that end at certain characters, with their ends. A carriage return and a line feed
behind it count as one end; `line` is what the current line has so far, backwards. -/
def linesBy (ends : Char → Bool) : (line rest : List Char) → List (List Char)
  | [], [] => []
  | line, [] => [line.reverse]
  | line, '\r' :: '\n' :: rest => (line.reverse ++ ['\r', '\n']) :: linesBy ends [] rest
  | line, c :: rest =>
    if ends c then (line.reverse ++ [c]) :: linesBy ends [] rest else linesBy ends (c :: line) rest

theorem linesOf_eq : linesOf source = linesBy isLineEnd [] source.toList := by
  have hlines (line rest : List Char) : (linesFrom line rest).map (fun x => x.1 ++ x.2) =
      linesBy isLineEnd line rest := by
    fun_induction linesFrom line rest <;> simp_all [linesBy]
  rw [← hlines]
  simp [linesOf, linesKeepingEnds]

theorem flatten_linesBy (ends : Char → Bool) (line rest : List Char) :
    (linesBy ends line rest).flatten = line.reverse ++ rest := by
  fun_induction linesBy ends line rest <;> simp_all

/-- Only the characters that occur matter. -/
theorem linesBy_congr {p q : Char → Bool} (line : List Char) {rest : List Char} (h : ∀ c ∈ rest, p c = q c) :
    linesBy p line rest = linesBy q line rest := by
  fun_induction linesBy p line rest <;> simp_all [linesBy]

theorem flatten_linesOf : (linesOf source).flatten = source.toList := by
  rw [linesOf_eq, flatten_linesBy]
  rfl

/-- Texts of spans that follow each other join, and the span of all lines has the whole text. -/
theorem segment_append (source file : String) :
    (∀ a b c : Mark (linesOf source), a.Le b → b.Le c → ∃ x y, segment source (a.upTo b file) = .ok x ∧
      segment source (b.upTo c file) = .ok y ∧ segment source (a.upTo c file) = .ok (x ++ y)) ∧
    (source ≠ "" → ∃ last, (Text.linesKeepingEnds source).getLast? = some last ∧
      segment source ⟨file, 1, 0, (Text.linesKeepingEnds source).length, byteLength last.toList⟩ = .ok source) := by
  constructor
  · intro a b c hab hbc
    have hac : a.Le c := by
      unfold Mark.Le at *
      omega
    obtain ⟨x, hx, hxb⟩ := segment_between (map_linesOf source) file hab
    obtain ⟨y, hy, hyc⟩ := segment_between (map_linesOf source) file hbc
    obtain ⟨z, hz, hzc⟩ := segment_between (map_linesOf source) file hac
    have hjoin : z = x ++ y := by
      rw [← hyc, ← hxb, append_assoc] at hzc
      rw [← String.toList_inj, String.toList_append, append_cancel_left hzc]
    exact ⟨x, y, hx, hy, hjoin ▸ hz⟩
  · intro hne
    have hlines : linesOf source ≠ [] := by
      intro hnil
      exact hne (String.toList_inj.mp (by simpa [hnil] using (flatten_linesOf source).symm))
    obtain ⟨first, rest, hfirst⟩ := exists_cons_of_ne_nil hlines
    obtain ⟨front, last, hlast⟩ := eq_nil_or_concat (linesOf source) |>.resolve_left hlines
    let a : Mark (linesOf source) := ⟨0, [], first, by simp [hfirst]⟩
    let b : Mark (linesOf source) := ⟨front.length, last, [], by simp [hlast]⟩
    have hle : a.Le b := by
      rcases Nat.eq_zero_or_pos front.length with hz | hpos
      · exact .inr ⟨hz.symm, Nat.zero_le _⟩
      · exact .inl hpos
    obtain ⟨x, hx, hall⟩ := segment_between (map_linesOf source) file hle
    have hsource : x = source := by
      have hbefore := b.before_append
      rw [← hall, flatten_linesOf] at hbefore
      rw [← String.toList_inj, ← hbefore]
      simp [a, b, Mark.before, hlast]
    refine ⟨String.ofList last, by simp [map_linesOf, hlast], ?_⟩
    have hzero : byteLength [] = 0 := rfl
    simpa [a, b, Mark.upTo, Mark.column, map_linesOf, hlast, hzero, hsource] using hx

/-! ## Lines of a reader -/

/-- A reader of programs ends lines at line feeds and carriage returns only. -/
def isReaderEnd (c : Char) : Bool := c == '\n' || c == '\r'

def readerLines : List (List Char) := linesBy isReaderEnd [] source.toList

/-- Where no other character ends a line, a span of the reader has the text between its ends. -/
theorem segment_of_reader (source file : String)
    (h : source.toList.all (fun c => Text.isLineEnd c == isReaderEnd c) = true) (a b : Mark (readerLines source))
    (hab : a.Le b) : ∃ x, segment source (a.upTo b file) = .ok x ∧ a.before ++ x.toList = b.before ∧
      b.before <+: source.toList := by
  have hlines : linesOf source = readerLines source := by
    rw [readerLines, linesOf_eq]
    exact linesBy_congr [] fun c hc => eq_of_beq (all_eq_true.mp h c hc)
  obtain ⟨x, hx, hbefore⟩ := segment_between (hlines ▸ map_linesOf source) file hab
  refine ⟨x, hx, hbefore, _, b.before_append.trans ?_⟩
  rw [← hlines, flatten_linesOf]

/-- The second statement of `s = 1` and `t = 2`, in lines of their own. -/
theorem second_line_extracted : ∃ x, segment "s = 1\nt = 2\n" ⟨"m.py", 2, 0, 2, 5⟩ = .ok x ∧
    "s = 1\n".toList ++ x.toList = "s = 1\nt = 2".toList ∧ "s = 1\nt = 2".toList <+: "s = 1\nt = 2\n".toList :=
  segment_of_reader "s = 1\nt = 2\n" "m.py" (by decide) ⟨1, [], "t = 2\n".toList, by decide⟩
    ⟨1, "t = 2".toList, ['\n'], by decide⟩ (.inr ⟨rfl, by decide⟩)

/-- A form feed in a text ends a line of the extraction, and none of the reader. -/
theorem form_feed_ends_line : (readerLines "s = '\x0c'\nt = 2\n")[1]? = some "t = 2\n".toList ∧
    (segment "s = '\x0c'\nt = 2\n" ⟨"m.py", 2, 0, 2, 5⟩).toOption = some "'\n" := by decide

end SecScan.Ir
