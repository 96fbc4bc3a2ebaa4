import SecScan.Syntax.Lexeme
import Mathlib.Data.List.Basic

/-!
Sources without their comments. A reader of tokens takes a source apart into tokens with gaps before them, and
tells where each token starts and ends (`Tokenized`). The text that is put together again from the tokens has
blanks in place of the gaps and the comments (`blankComments_eq`). It has all lines but those that a gap
joins to the line before, and up to the first of these gaps every token stands where it stood
(`tokens_in_place`).
-/

namespace SecScan.Syntax

open List

/-- Where a text leads to from a row and a column. -/
def walk (p : Nat × Nat) (cs : List Char) : Nat × Nat :=
  cs.foldl (fun p c => if c = '\n' then (p.1 + 1, 0) else (p.1, p.2 + 1)) p

/-- A token with what stands between the one before and it. -/
structure Piece where
  gap : List Char
  token : Token

namespace Piece

variable (x : Piece)

def text : List Char := x.token.text.toList

def start : Nat × Nat := (x.token.startLine, x.token.startCol)

/-- The gap leads from `p` to where the token starts. What comes next is behind the end of the token, or on
a new row if the token ends its row. -/
def Placed : Nat × Nat → List Piece → Prop
  | _, [] => True
  | p, x :: rest => x.token.kind ≠ "ENCODING" ∧ walk p x.gap = x.start ∧
      (rest = [] ∨ walk x.start x.text = (x.token.endLine, x.token.endCol) ∨
        walk x.start x.text = (x.token.endLine + 1, 0)) ∧ Placed (walk x.start x.text) rest

/-- What becomes of a token and the gap before it. -/
def blanked : List Char :=
  replicate (if '\n' ∈ x.gap then x.token.startCol else x.gap.length) ' ' ++
    if x.token.kind = "COMMENT" then replicate x.text.length ' ' else x.text

end Piece

/-- A source in pieces. Behind its end stand empty tokens that start a row. -/
structure Tokenized (source : String) (pieces : List Piece) (ends : List Token) : Prop where
  text : source.toList = pieces.flatMap fun x => x.gap ++ x.text
  placed : Piece.Placed (1, 0) pieces
  comment : ∀ x ∈ pieces, x.token.kind = "COMMENT" → '\n' ∉ x.text
  ends : ∀ t ∈ ends, t.text = "" ∧ t.startCol = 0 ∧ t.kind ≠ "COMMENT"

variable {p : Nat × Nat} {cs ds : List Char} {x : Piece} {pieces : List Piece} {ends : List Token}

theorem walk_append : walk p (cs ++ ds) = walk (walk p cs) ds := foldl_append

theorem walk_row (p : Nat × Nat) (cs : List Char) : (walk p cs).1 = p.1 + cs.count '\n' := by
  induction cs generalizing p with
  | nil => rfl
  | cons c cs ih =>
    rw [walk, foldl_cons, ← walk, ih, count_cons]
    by_cases hc : c = '\n'
    · simp [hc]
      omega
    · simp [hc]

theorem walk_of_not_mem (h : '\n' ∉ cs) : walk p cs = (p.1, p.2 + cs.length) := by
  induction cs generalizing p with
  | nil => rfl
  | cons c cs ih =>
    obtain ⟨hc, hcs⟩ : '\n' ≠ c ∧ '\n' ∉ cs := by simpa using h
    rw [walk, foldl_cons, if_neg hc.symm, ← walk, ih hcs, length_cons, Nat.add_assoc, Nat.add_comm 1]

theorem toList_repeated (n : Nat) : (Text.repeated n " ").toList = replicate n ' ' := by
  induction n with
  | zero => rfl
  | succ n ih => simpa [Text.repeated, replicate_succ] using ih

/-- The tokens behind the end leave nothing. -/
theorem blankComments_ends (hends : ∀ t ∈ ends, t.text = "" ∧ t.startCol = 0 ∧ t.kind ≠ "COMMENT") (line col : Nat) :
    String.join (blankComments line col ends) = "" := by
  induction ends generalizing line col with
  | nil => rfl
  | cons t ts ih =>
    obtain ⟨⟨htext, hcol, hkind⟩, hends⟩ := forall_mem_cons.mp hends
    rw [blankComments]
    split
    · exact ih hends line col
    · simp [htext, hcol, hkind, Text.repeated, ih hends]

/-- What is put together from the tokens on from a place. -/
theorem blankComments_eq {line col : Nat} (hplaced : Piece.Placed p pieces)
    (hp : pieces = [] ∨ p = (line, col) ∨ p = (line + 1, 0))
    (hends : ∀ t ∈ ends, t.text = "" ∧ t.startCol = 0 ∧ t.kind ≠ "COMMENT") :
    (String.join (blankComments line col (pieces.map (·.token) ++ ends))).toList = pieces.flatMap Piece.blanked := by
  induction pieces generalizing p line col with
  | nil => rw [map_nil, nil_append, blankComments_ends hends]; rfl
  | cons x rest ih =>
    obtain ⟨hkind, hstart, hend, hrest⟩ := hplaced
    have hrow : p.1 + x.gap.count '\n' = x.token.startLine := by rw [← walk_row, hstart]; rfl
    -- a gap that stays on the row starts where the token before it has ended, or at the start of the row
    have hblanks : x.token.startCol - (if line < x.token.startLine then 0 else col) =
        if '\n' ∈ x.gap then x.token.startCol else x.gap.length := by
      replace hp := hp.resolve_left (by simp)
      by_cases hmem : '\n' ∈ x.gap
      · have hpos := count_pos_iff.mpr hmem
        have hlt : line < x.token.startLine := by rcases hp with rfl | rfl <;> dsimp only at hrow <;> omega
        rw [if_pos hmem, if_pos hlt, Nat.sub_zero]
      · have hcol : p.2 + x.gap.length = x.token.startCol := by
          rw [walk_of_not_mem hmem] at hstart
          exact congrArg Prod.snd hstart
        rw [count_eq_zero_of_not_mem hmem] at hrow
        rw [if_neg hmem, ← hcol, ← hrow]
        rcases hp with rfl | rfl <;> simp
    rw [map_cons, cons_append, blankComments, if_neg (by simpa using hkind)]
    dsimp only
    rw [String.join_cons, String.join_cons, String.toList_append, String.toList_append, ih hrest hend, hblanks,
      toList_repeated, flatMap_cons, Piece.blanked, append_assoc]
    congr 2
    by_cases hcomment : x.token.kind = "COMMENT"
    · simp [hcomment, toList_repeated, Piece.text, String.length_toList]
    · simp [hcomment, Piece.text]

/-- The lines that are left, and those that gaps have joined. -/
theorem count_blanked (hcomment : ∀ x ∈ pieces, x.token.kind = "COMMENT" → '\n' ∉ x.text) :
    (pieces.flatMap Piece.blanked).count '\n' + (pieces.flatMap Piece.gap).count '\n' =
      (pieces.flatMap fun x => x.gap ++ x.text).count '\n' := by
  induction pieces with
  | nil => rfl
  | cons x rest ih =>
    obtain ⟨hx, hrest⟩ := forall_mem_cons.mp hcomment
    have hblanks (n : Nat) : (replicate n ' ').count '\n' = 0 := count_eq_zero_of_not_mem (by simp)
    have hcount : x.blanked.count '\n' = x.text.count '\n' := by
      rw [Piece.blanked, count_append, hblanks, Nat.zero_add]
      split
      next hkind => rw [hblanks, count_eq_zero_of_not_mem (hx hkind)]
      · rfl
    simp only [flatMap_cons, count_append, hcount, ← ih hrest]
    omega

theorem walk_blanks (h : '\n' ∉ cs) : walk p (replicate cs.length ' ') = walk p cs := by
  rw [walk_of_not_mem (by simp), walk_of_not_mem h, length_replicate]

/-- Before the first gap that joins lines, blanks lead to where the source leads. -/
theorem walk_blanked {l r : List Piece} (hplaced : Piece.Placed p (l ++ x :: r))
    (hgaps : ∀ y ∈ l ++ [x], '\n' ∉ y.gap) (hcomment : ∀ y ∈ l, y.token.kind = "COMMENT" → '\n' ∉ y.text) :
    walk p (l.flatMap Piece.blanked ++ replicate x.gap.length ' ') = x.start := by
  induction l generalizing p with
  | nil =>
    rw [flatMap_nil, nil_append, walk_blanks (hgaps x (by simp))]
    exact hplaced.2.1
  | cons y l ih =>
    obtain ⟨-, hstart, -, hrest⟩ := hplaced
    obtain ⟨hy, hcomment⟩ := forall_mem_cons.mp hcomment
    obtain ⟨hgap, hgaps⟩ := forall_mem_cons.mp hgaps
    have hwalk : walk p y.blanked = walk y.start y.text := by
      rw [Piece.blanked, if_neg hgap, walk_append, walk_blanks hgap, hstart]
      split
      next hkind => exact walk_blanks (hy hkind)
      · rfl
    rw [flatMap_cons, append_assoc, walk_append, hwalk]
    exact ih hrest hgaps hcomment

/-- Without its comments a source has all lines but those that a gap joins to the line before, and up to the
first such gap every other token stands where it stood. -/
theorem tokens_in_place (source : String) (pieces : List Piece) (ends : List Token) (encoding : Token)
    (hencoding : encoding.kind = "ENCODING") (h : Tokenized source pieces ends) :
    let out := (stripComments source (some (encoding :: (pieces.map (·.token) ++ ends)))).toList
    out.count '\n' + (pieces.flatMap Piece.gap).count '\n' = source.toList.count '\n' ∧
      ∀ l x r, pieces = l ++ x :: r → (∀ y ∈ l ++ [x], '\n' ∉ y.gap) → x.token.kind ≠ "COMMENT" →
        ∃ before rest, out = before ++ x.text ++ rest ∧ walk (1, 0) before = x.start := by
  intro out
  have hout : out = pieces.flatMap Piece.blanked := by
    simp only [out, stripComments, blankComments, hencoding]
    exact blankComments_eq h.placed (.inr (.inl rfl)) h.ends
  refine ⟨?_, ?_⟩
  · rw [hout, h.text, count_blanked h.comment]
  · rintro l x r rfl hgaps hkind
    refine ⟨l.flatMap Piece.blanked ++ replicate x.gap.length ' ', r.flatMap Piece.blanked, ?_, ?_⟩
    · rw [hout, flatMap_append, flatMap_cons, Piece.blanked, if_neg (hgaps x (by simp)), if_neg hkind]
      simp
    · exact walk_blanked h.placed hgaps fun y hy => h.comment y (by simp [hy])

/-- `x # y` -/
def remarked : List Piece := [⟨[], "NAME", "x", 1, 0, 1, 1⟩, ⟨[' '], "COMMENT", "# y", 1, 2, 1, 5⟩,
  ⟨[], "NEWLINE", "\n", 1, 5, 1, 6⟩]

theorem remarked_in_place :
    let out := (stripComments "x # y\n" (some (⟨"ENCODING", "utf-8", 0, 0, 0, 0⟩ :: (remarked.map (·.token) ++
      [⟨"ENDMARKER", "", 2, 0, 2, 0⟩])))).toList
    out.count '\n' = 1 ∧ ∃ before rest, out = before ++ ['\n'] ++ rest ∧ walk (1, 0) before = (1, 5) :=
  have h := tokens_in_place "x # y\n" remarked [⟨"ENDMARKER", "", 2, 0, 2, 0⟩] ⟨"ENCODING", "utf-8", 0, 0, 0, 0⟩ rfl
    ⟨by decide, by simp [remarked, Piece.Placed, walk, Piece.start, Piece.text],
      by simp [remarked, Piece.text], by simp⟩
  ⟨h.1, h.2 (remarked.take 2) _ [] rfl (by simp [remarked]) (by decide)⟩

/-- `x = 1` over two lines: the first of them is lost. -/
theorem joined_line_lost : stripComments "x = \\\n1\n" (some [⟨"ENCODING", "utf-8", 0, 0, 0, 0⟩,
    ⟨"NAME", "x", 1, 0, 1, 1⟩, ⟨"OP", "=", 1, 2, 1, 3⟩, ⟨"NUMBER", "1", 2, 0, 2, 1⟩, ⟨"NEWLINE", "\n", 2, 1, 2, 2⟩,
    ⟨"ENDMARKER", "", 3, 0, 3, 0⟩]) = "x =1\n" := by decide

end SecScan.Syntax
