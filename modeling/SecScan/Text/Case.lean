import SecScan.Text.Character
import SecScan.Text.Search

/-! Letter case of all scripts. -/
namespace SecScan.Text

/-- Shifts of letters with the letters that they take: of ranges that are shifted by one every second letter. -/
abbrev Shifts := List (Int × Bounds)

def Shifts.ofTexts (rows : List (Int × String)) : Shifts := rows.map fun (d, s) => (d, .ofText s)

variable (s : String)

def replacements : List (List Char) := (words s).map (·.toList)

/-! Characters that do not count when letter case depends on the letters around. -/

def ignorableBounds : Bounds := .ofText "
  d161B1Z1111-91411141228-73-6424192114-373-L151nj11121211i1B6AB11Z1ALG11-d81A14X111UR1-TBwB4121OOh3i17268fwt111484137
  A2D1F1w14481K2Q122v142422331U231B2v1451241K2M611w121148172B2U1z1C1o131t113531472B2T1w1216152K2S2v24481K2T11-A173111-
  S127B91-a12991161-C2R11111tE15125B1a911-e4161222P243G4D12261F11-W19-o3F-G3T2U2U21-2217812B3151j5p11-32Y11-u34291633-
  X221w1171111286A21d18Vn4m1151151e9C2W42213u1123113w8221-261-K31D17416132o1-1D1Y1-d7-B113B3D3D3D2C582A12125n51A11D1GD
  pXl-f21-p32-11F11-YWl17-Z1a435511-V61-V37-O-g1K-A64-M11-a41A11S41-I2EY1-G1N31-f332813141P2512-R2QID1c8PBk3m12422H1L2
  1-462222C181Z1B1p113225211R1E252111-c5931-x121415-G-y12-NH9-FG31CGY1212-j17161B1Z111l1j21-51L38-H13-e12-P5G-b61g199-
  O31254e3412-f29-F46-F22-TBn41-z1sFf122A3n4222141A1o3a5181-01C2q9A4211-X32112612-a138L2v231b7353-982311N11-M61142123-
  q46212R21-N821121-i11126111-d324154-B9124-8211412-K42241WAe624819623kD126-Y716111-KM2712121-y6311217111-A231115-b21-
  P-f93-d-v5x794G-h11-1H1-22124-G-R41712q-62141-D-ok2N8-m39G27U42-O3V-vt4o81E1M51FL-w71H2712154-DE5-w1z4O-G71-l8i-753-
  J-N-x1U1-Y2-43-s"

variable (c : Char)

/-- Marks, modifiers and signs within words, which are skipped when looking for the letters around. -/
def isCaseIgnorable : Bool := ignorableBounds.holds c

def casedBounds : Bounds := .ofText "
  1-3Q6Ql1A1415N1V13-91443-M1a72U51-Y1g42224116113111K11-L12-F82-g1c9fj-nc11512h23A-q1-O26Z-897h231-23-61-24-U262c2628
  1111111V2r1711331734264D53171-s1D1GD1-d1412A1135611111141641245541HW32D-BqT-G3-h6432Cc11518-3-ukIU2-81-e341x521115R2
  13D-Fh1D71-I5-H-E7C5G-fQ6QJ-B1-I1-Ya4a1-sB1F17121B1F17127-H1231g19J-hpDpm-D1-25-g-W1-26-l-61-N11-9122122241C111711-3
  1428171S1415113715-U2P1P1V1P1V1P1V1P1V1P18T-kA1Ke-n1-6W-iQ6Q6Q"

def lowerShifts : Shifts := .ofTexts [ (32, "1-3Q1-dN17B-8H191-cWG-i-9Q1-g-rW5-h-2W"), (2, "7-I12121c1"),
  (1, "4-8l352F2j2543213151617521412133213181212H2H333d3H8151494-f3311-ZN81211-dX9r2D21-X1-e-T2-PB1-XA-O1i-q1656121
  A1-b83418-4-rjJR2-BD3zA32941433JBF436153S1"),
  (-121, "6-41"), (210, "6-D1"), (206, "6-I1"), (205, "6-L281"), (79, "6-Q1"), (202, "6-R1"), (203, "6-S1"),
  (207, "6-W1"), (211, "6-Y151"), (209, "6-Z1"), (213, "6-f1"), (214, "6-h1"), (218, "6-o12141"), (217, "6-z2"),
  (219, "7-51"), (-97, "8-61"), (-56, "8-71"), (-130, "8-m17-g3"), (10795, "9-C1"), (-163, "9-F1"), (10792, "9-G1"),
  (-195, "9-L1"), (69, "9-M1"), (71, "9-N1"), (116, "E-R1"), (38, "E-Y1"), (37, "E-a3"), (64, "E-e1H-d-zp"),
  (63, "E-g2"), (8, "F-j11-4-a6"), (-60, "G-K1"), (-7, "G-P11-r-O1"), (80, "G-WG"), (15, "J-c1"), (48, "L-Rc2-Z-dm"),
  (7264, "1-6-ec1151"), (38864, "1-J-21-I"), (-3008, "1-t-wh23"), (-7615, "2-2-Q1"),
  (-8, "2-4-8886A88886B111111188O8888882U2E2"), (-74, "2-7-02"), (-9, "2-7-21F1l1"), (-86, "2-7-E4"),
  (-100, "2-7-W2"), (-112, "2-7-m2"), (-128, "2-8-02"), (-126, "2-8-22"), (-7517, "2-C-s1"), (-8383, "2-C-w1"),
  (-8262, "2-C-x1"), (28, "2-D-41"), (16, "2-D-oG"), (26, "2-R-aQ"), (-10743, "2-x-G1"), (-3814, "2-x-H1"),
  (-10727, "2-x-I1"), (-10780, "2-x-R1"), (-10749, "2-x-S1"), (-10783, "2-x-T1"), (-10782, "2-x-U1"),
  (-10815, "2-x-i2"), (-35332, "B-9-Z1"), (-42280, "B-9-p1"), (-42308, "B-A-I131"), (-42319, "B-A-J1"),
  (-42315, "B-A-K1"), (-42305, "B-A-L1"), (-42258, "B-A-O1"), (-42282, "B-A-P1"), (-42261, "B-A-Q1"),
  (928, "B-A-R1"), (-48, "B-A-i1"), (-42307, "B-A-j1"), (-35384, "B-A-k1"), (40, "H-J-Ye2-Ca"), (39, "H-P-UB1F1712"),
  (34, "W-Z-6Y")]

/-- Letters with a small iota below, whose upper case has a capital one beside them. -/
def iotaShifts : Shifts := .ofTexts [
  (-120, "2-6-48"), (-128, "2-6-C8"), (-104, "2-6-K8"), (-112, "2-6-S8"), (-56, "2-6-a8"), (-64, "2-6-i8")]

/-- Characters whose upper case is a longer text, or a capital of another letter. -/
def upperTexts : List (List Char) := replacements "
  µΜ ßSS ıI ŉʼN ſS ǅǄ ǈǇ ǋǊ ǰJ̌ ǲǱ ͅΙ ΐΪ́ ΰΫ́ ςΣ ϐΒ ϑΘ ϕΦ ϖΠ ϰΚ ϱΡ ϵΕ ևԵՒ ᲀВ ᲁД ᲂО ᲃС ᲄТ ᲅТ ᲆЪ
  ᲇѢ ᲈꙊ ẖH̱ ẗT̈ ẘW̊ ẙY̊ ẚAʾ ẛṠ ὐΥ̓ ὒΥ̓̀ ὔΥ̓́ ὖΥ̓͂ ᾲᾺΙ ᾳΑΙ ᾴΆΙ ᾶΑ͂ ᾷΑ͂Ι ᾼΑΙ ιΙ ῂῊΙ ῃΗΙ ῄΉΙ ῆΗ͂ ῇΗ͂Ι
  ῌΗΙ ῒΪ̀ ΐΪ́ ῖΙ͂ ῗΪ͂ ῢΫ̀ ΰΫ́ ῤΡ̓ ῦΥ͂ ῧΫ͂ ῲῺΙ ῳΩΙ ῴΏΙ ῶΩ͂ ῷΩ͂Ι ῼΩΙ ﬀFF ﬁFI ﬂFL ﬃFFI ﬄFFL ﬅST
  ﬆST ﬓՄՆ ﬔՄԵ ﬕՄԻ ﬖՎՆ ﬗՄԽ"

/-- Characters whose form at the head of a word is a longer text. -/
def titleTexts : List (List Char) := replacements "
  ßSs ևԵւ ᾲᾺͅ ᾴΆͅ ᾷᾼ͂ ῂῊͅ ῄΉͅ ῇῌ͂ ῲῺͅ ῴΏͅ ῷῼ͂ ﬀFf ﬁFi ﬂFl ﬃFfi ﬄFfl ﬅSt ﬆSt ﬓՄն ﬔՄե ﬕՄի ﬖՎն ﬗՄխ"

/-- Letters for the head of a word only. -/
def titleLetters : List Nat :=
  [0x1c5, 0x1c8, 0x1cb, 0x1f2, 0x1fbc, 0x1fcc, 0x1ffc] ++ [0x1f88, 0x1f98, 0x1fa8].flatMap (List.range' · 8)

/-- Capitals without a small letter. -/
def unpairedBounds : Bounds := .ofText "
  4-u1A-r31-w-T141332321356131322211A251S-x-0QQQQQQ11221222418QQQ2142817R214151137RQQQQQQQQQQQUPXPXPXPXPX11-g-rQ6Q6Q"

def takes : Int × Bounds → Int → Bool
  | (d, b), n => (b.offset? n.toNat).any fun k => d != 1 || k % 2 == 0

def shift? (s : Shifts) (c : Char) : Option Char :=
  (s.find? (takes · c.toNat)).map fun (d, _) => Char.ofNat (c.toNat + d).toNat

/-- The first character that is shifted to the given one. -/
def shiftedFrom? (s : Shifts) (c : Char) : Option Char :=
  (s.find? fun r => takes r (c.toNat - r.1)).map fun (d, _) => Char.ofNat (c.toNat - d).toNat

def replacement? (rows : List (List Char)) (c : Char) : Option (List Char) :=
  (rows.find? (·.head? == some c)).map (·.tail)

def isCased : Bool := casedBounds.holds c

def isUpper : Bool := unpairedBounds.holds c || (shift? lowerShifts c).isSome && !titleLetters.contains c.toNat

def lowerChar : Char :=
  if c.toNat < 0x80 then c.toLower else if c.toNat == 0x130 then 'i' else (shift? lowerShifts c).getD c

/-- A capital sigma at the end of a word has a form of its own. -/
def lowerSigma (before after : List Char) : Char :=
  let left := (before.dropWhile isCaseIgnorable).head?.any isCased
  let right := (after.dropWhile isCaseIgnorable).head?.any isCased
  if left && !right then Char.ofNat 0x3c2 else Char.ofNat 0x3c3

/-- The lower case of a character between those before it, the nearest first, and those after it. -/
def lowerText (before : List Char) (c : Char) (after : List Char) : List Char :=
  if c.toNat == 0x3a3 then [lowerSigma before after]
  else if c.toNat == 0x130 then ['i', Char.ofNat 0x307]
  else [lowerChar c]

def lowerAll : List Char → List Char → List Char
  | _, [] => []
  | before, c :: rest => lowerText before c rest ++ lowerAll (c :: before) rest

def lower : String := String.ofList (lowerAll [] s.toList)

def upperText : List Char :=
  if c.toNat < 0x80 then [c.toUpper]
  else
    match replacement? upperTexts c, shift? iotaShifts c with
    | some t, _ => t
    | none, some d => [d, Char.ofNat 0x399]
    | none, none => [(shiftedFrom? lowerShifts c).getD c]

def upper : String := String.ofList (s.toList.flatMap upperText)

/-- A letter at the head of a word; Georgian has capitals for whole words only. -/
def titleText : List Char :=
  match replacement? titleTexts c, titleLetters.find? fun t => lowerChar (Char.ofNat t) == lowerChar c with
  | some t, _ => t
  | none, some t => [Char.ofNat t]
  | none, none => if 0x10d0 ≤ c.toNat && c.toNat ≤ 0x10ff then [c] else upperText c

def titleAll : List Char → List Char → List Char
  | _, [] => []
  | before, c :: rest =>
    (if before.head?.any isCased then lowerText before c rest else titleText c) ++ titleAll (c :: before) rest

def title : String := String.ofList (titleAll [] s.toList)

/-- Characters that differ in case only are folded to the same one. -/
def fold : Char :=
  let l := lowerChar c
  if l.toNat == 0x17f then 's' else if l.toNat == 0x131 then 'i' else l

/-! Words compared without regard to letter case. -/

/-- The letters that stand for plain small ones beside their capitals. -/
def standIns : List (Char × String) :=
  [('ſ', "s"), ('ß', "ss"), ('ﬀ', "ff"), ('ﬁ', "fi"), ('ﬂ', "fl"), ('ﬃ', "ffi"), ('ﬄ', "ffl"), ('ﬅ', "st"),
    ('ﬆ', "st")]

/-- A text in small letters, with plain letters in place of what stands for them. Letters of other
scripts stay apart from plain ones whichever way they are folded. -/
def plain : String :=
  String.ofList ((lower s).toList.flatMap fun c => ((standIns.lookup c).map (·.toList)).getD [c])

end SecScan.Text
