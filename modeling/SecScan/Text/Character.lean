/-! Classes of characters of all scripts. A class is ascending bounds: a range begins at every even place and
ends before every odd one. They are written as the gaps between them. -/
namespace SecScan.Text

abbrev Bounds := Array Nat

variable (c : Char)

def digitOf : Nat := c.toNat - if c ≤ '9' then 48 else if c ≤ 'Z' then 55 else 61

/-- Numbers in base 62, whose further digits stand behind dashes. -/
def numbers : List Nat → List Char → List Nat
  | n :: found, '-' :: c :: rest => numbers ((62 * n + digitOf c) :: found) rest
  | found, c :: rest => numbers (digitOf c :: found) rest
  | found, [] => found.reverse

def Bounds.ofText (gaps : String) : Bounds :=
  ((numbers [] (gaps.toList.filter (!·.isWhitespace))).foldl (fun (b, n) gap => (b.push (n + gap), n + gap)) (#[], 0)).1

/-- How many of the first `hi` bounds lie at or below `n`, knowing that the first `lo` do. -/
def Bounds.count (b : Bounds) (n : Nat) : Nat → Nat → Nat → Nat
  | 0, lo, _ => lo
  | fuel + 1, lo, hi =>
    if lo < hi then
      let mid := (lo + hi) / 2
      if b.getD mid 0 ≤ n then count b n fuel (mid + 1) hi else count b n fuel lo mid
    else lo

def Bounds.holds (b : Bounds) (c : Char) : Bool := b.count c.toNat b.size 0 b.size % 2 == 1

def Bounds.offset? (b : Bounds) (n : Nat) : Option Nat :=
  let k := b.count n b.size 0 b.size
  if k % 2 == 1 then some (n - b.getD (k - 1) 0) else none

def decimalBounds : Bounds := .ofText "
  mAP-OA2-AA3-CA6-eA1-uA1-uA1-uA1-uA1-uA1-uA1-uA1-uA1-uA1-YA1-uA1-8A4-UA1-8AU-2AcA4-qA2-4A2-gA6A2-wA1-OA2-AA6A9-A-sAA-
  wAcA3-CAMA1-OA6-YA5-X-4AM-oAZ-CAD-6A2-4AyA2-KA4-UA5-WA1-uA6-2A1-eA1-eA6-oA1-eAC-EA3-yA1-8A5-6-kA1-OA2-AA7-D-ooc-CA6-
  oAQ-AA1-E-kA"

def digitBounds : Bounds := .ofText "
  mA1-w251N-KA2-AA3-CA6-eA1-uA1-uA1-uA1-uA1-uA1-uA1-uA1-uA1-uA1-YA1-uA1-8A4-UA1-8AB-b9I-IAcA4-qA2-4B2-fA6A2-wA1-OA2-AA
  6AG-s1366AF-q9B9B91-R1A911A-A919198-Q-XAA-wAcA3-CAMA1-OA6-YA5-X-4AM-oAN-44C-4A4-k97-t9BA2-4AyA2-KA4-UA5-WA1-uA6-2A1-
  eA1-eA6-oA1-eAC-EA3-yA1-8A5-6-kA1-OA2-AA7-D-ooc-CA6-oAQ-AAV-aBi-zA"

/-- A digit of a positional number. -/
def isDecimal : Bool := decimalBounds.holds c

/-- A digit, superscripts and the like included. -/
def isDigit : Bool := digitBounds.holds c

/-- The value of a positional digit; the digits of a script stand side by side from zero on. -/
def digitValue? : Option Nat := (decimalBounds.offset? c.toNat).map (· % 10)

def wholeNumber? (s : String) : Option Nat :=
  if s.isEmpty then none
  else s.toList.foldlM (fun n c => (digitValue? c).map (10 * n + ·)) 0

def isDigits (s : String) : Bool := !s.isEmpty && s.toList.all isDigit

/-! Letters, digits and other numeric characters. -/

def alphanumericBounds : Bounds := .ofText "
  mA7Q6Ql1721132131N1V17-O4CE571112-551224116113111K11-L12-F82-g1c216f1-9R44jhLA4211-b11F27F21G11UT1-RB1Eh92415M419131
  NP7B5O16Hgws31I17A4A1G48222M17113431G1D2134C262186422M17121212V4117A23G9131M17121531I1F24A91B8222M17121531U2134A17B1
  16331432111232333CM1LDI8131N1G31Q321224A871148131N1A1531V2124A12H9131f21G1531A4J165I3O191127VAHm12C79Ad211151O111A12
  9125119A24W1VKC81aR51-rhKB66443132734DC11A6c11512h15-N142711142f142X142711142F1v1421-5EK3GG1-O263A-02H1Q51-D3B7IDJEI
  ED13FqZ1413A6AMA61-R752Y1151-8AVde25Bi4Q6BbN9rhA6AD11-VlH83AfUDuQaSA3n297h23f416123153-61-24-U262c26281111111V2r1711
  331734264D53171-r2265B6D1-d1412A1135611111141B2455411wB-iy1-GMA-AUI-G3-h6432912c11512u71GN97171717171717171-I17-Z3P9
  752541-O6311-S145h11-W34AWmGWAU81FWAdF5-A1-i-K1-25-l-N1-5k24-L3SKlGV21-Id921-f21-2521115OG13141ND6AqEoSAO631121cANPT
  7lSB651P1fN3184A6N313o1132252111O32B73C6262697171h1E61-rDA62-u-CCN4n2-C-K5-u21-ic7C5511A1D1511121211-kX5-rI1-22seC1-
  s512-BJA7Q6QB1-R36262623ZC1Q1J121F2EY1-zCjCvH23-wT3nGR4a9U5cAU2a4815g2-Y2A6a4a4e8qCB1F17121B1F17121-55-19MA8O61g191-
  76211i12312N2V2c89mJ125X4Q1-8u4K2lF4131TA9NV1WW81S65GsAM2R5QN71-I1-BtpDp7gCA4-kV1g621-Ge8MB4RIkSKNCrQU1221DjWP7A9aFA
  41218Z31CmE4BB114KBI1P1-M711141F1A7lHAB8222M17121531I1C52-YrI45A53UmK2118A2-glf4amK1BAchD17AsRLC472-zi1-s1-LC8212812
  1OF111EA1-882dG111S1Ae71L1BkJ1I1-B4-F91bH1FT5U1-o7121cL19A66121WE17A5-0J3-31FLhE-s1-e1-nH3-Ag-W1-ZFH-H1-3-J9-P2-F-F9
  -B7V1A61-H1A6UImG4CA171L5JB-61-P1-h1-D511-4D1-2211S1-a-y8J-yg92-K-74171214-hj3H486-Ob-E1-j5D397A1-T-yK1-kP2-B1-N11-9
  122122241C111711-31428171S1415113715-U2P1P1V1P1V1P1V1P1V1P182oS-uV7-ljA72A415-BUIi4AK-E714121F13-B29m1-6714AC-lx1314
  1-Ej1F3-841R1211211A141111614111111312112111111111121124171414111A1H53151H9-MDi-xAG-cB-7-2W1-4-z73-a21-U-wE1-w-Xo-38
  -kO-I1-H-f"

def isAlphanumeric : Bool := alphanumericBounds.holds c

def isWord : Bool := c == '_' || isAlphanumeric c

/-! Characters that are shown as they are: no controls, separators other than the space, or code points without a
character. -/

def printableBounds : Bounds := .ofText "
  W1-XYC1B-W2647111K16-P1c2o231t8R46HM13-61m2x21-dEx2n2F1S211B5V91-C12-b18222M1711342922248142152P2316422M171212122115
  42233174117HA319131M1712152A131321F42C771318222M1712152922237342152IA216331432111232333C4533142161EL5D131N1G29131472
  1321242A7M131N1A152913147262142A12DD131p13164G2Q131I3O191127314611186A23Cw4Tb211151O111N2511162A24W1-A1a4d1a1F1Db3-C
  115126-5142711142f142X142711142F1v1421-52W3Q61-O262A-K1S31-R7M9O9KCD1312C1-W2A6A6E1B61-R7h51-8AV1C4C413g25Bi4Q6B31-0
  21-31T2B6A6E2Vn1-F3l11-s8y3F3y7h2B8h58-c262c26281111111V2r1F1E261J2319HO8lH22R1D3XFXF2-G4A-hPBLT-E2W15-d5j11512u72EO
  971717171717171712-2YQ11-RC3-SQC51-111-O21-f5h11-W11-MCl17-c-T3t95-cK2-y83-H521115Ox3A6u81-88C61-sBU31-G1B4X1t9E2A21
  -fOSA6262697171y42-22A62-u-CCN4n2-C-K5-u21-ic7C55Q1511121212-1G7-B2s71Wg6p1J144512-B43-4362626233717D22C1Q1J121F2EY1
  -z534j31-Q1D31lk2-6T3nFS4a9U5h5U1b4Eg2-Y2A6a4a4e8qBC1F17121B1F17121-55-19MA8O61g191-76211i12312N11-A89mJ125X3R511-2u
  4K2o1258131T234A7971-2Wd4C9s3T2R5Q74C71-I1-BtpDp7k8A4-kV1g13221-Ge8gMQcSKN91-G4a91-015DP7A6r1I8d91-Y1KBI1i1-3711141F
  1B6x5A6418222M1712151A222321615727352-F1-U15U1-A8A2-gs2cY1-7BA6DJw6AsR2F4N2-zy1-c1-LC82128121U122C9A1-882k2BR1-A81-L
  D1-B4-F91j1EAT3W2M1E1-B7121i3112198A66121b12167A5-0P2-x1FoDE-t1-e1-n15B3-Ag-W1-bDH-H1-3-J9-P2-F-F9-B7V1A41-J1A6U26A1
  -8AA171L5JB-61-T1-d1-D4v7H1-25B2E1-a-y8J-yg92-K-74171214-hj3H486-Ob-E1-j5D397A241-D-sk2N91-sy3-yAd21-C81-oL1-82-UKC1
  -P9P2-B1-N11-9122122241C111711-31428171S1415113715-U24-i2B-KF51FH-oV3-d71H2712153-Rj3E2A425-AVHw51K-8714121F13-B2Gf1
  -E4A42C-f1-61-Ez3-841R1211211A141111614111111312112111111111121124171414111A1H53151Hq24-Mi41-cCF2F1F1bA2-ouTDi4972E6
  2-UF-s5G3D31-sC1-R7C41FC4u8A6e8U221-G5-UCE2535379T3B56AA688792-N1tbAG-cB-7-2W1-4-z73-a21-U-wE1-w-Xo-38-kO-I1-H-f3-0-
  J-p3-s"

def isPrintable : Bool := printableBounds.holds c

end SecScan.Text
