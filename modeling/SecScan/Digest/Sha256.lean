import SecScan.Json.Writer

/-! The SHA-256 digest of a text in UTF-8. Words are natural numbers. -/
namespace SecScan.Digest

def roundConstants : List Nat := [
  0x428a2f98, 0x71374491, 0xb5c0fbcf, 0xe9b5dba5, 0x3956c25b, 0x59f111f1, 0x923f82a4, 0xab1c5ed5,
  0xd807aa98, 0x12835b01, 0x243185be, 0x550c7dc3, 0x72be5d74, 0x80deb1fe, 0x9bdc06a7, 0xc19bf174,
  0xe49b69c1, 0xefbe4786, 0x0fc19dc6, 0x240ca1cc, 0x2de92c6f, 0x4a7484aa, 0x5cb0a9dc, 0x76f988da,
  0x983e5152, 0xa831c66d, 0xb00327c8, 0xbf597fc7, 0xc6e00bf3, 0xd5a79147, 0x06ca6351, 0x14292967,
  0x27b70a85, 0x2e1b2138, 0x4d2c6dfc, 0x53380d13, 0x650a7354, 0x766a0abb, 0x81c2c92e, 0x92722c85,
  0xa2bfe8a1, 0xa81a664b, 0xc24b8b70, 0xc76c51a3, 0xd192e819, 0xd6990624, 0xf40e3585, 0x106aa070,
  0x19a4c116, 0x1e376c08, 0x2748774c, 0x34b0bcb5, 0x391c0cb3, 0x4ed8aa4a, 0x5b9cca4f, 0x682e6ff3,
  0x748f82ee, 0x78a5636f, 0x84c87814, 0x8cc70208, 0x90befffa, 0xa4506ceb, 0xbef9a3f7, 0xc67178f2]

structure Registers where
  (a b c d e f g h : Nat)

def startRegisters : Registers :=
  ⟨0x6a09e667, 0xbb67ae85, 0x3c6ef372, 0xa54ff53a, 0x510e527f, 0x9b05688c, 0x1f83d9ab, 0x5be0cd19⟩

/-- Words have thirty-two bits. -/
def cut (n : Nat) : Nat := n % 0x100000000

def rotate (x n : Nat) : Nat := x >>> n ||| cut (x <<< (32 - n))

def schedule : Nat → List Nat → List Nat
  | 0, _ => []
  | n + 1, w =>
    let x := w.getD 1 0
    let y := w.getD 14 0
    let s0 := rotate x 7 ^^^ rotate x 18 ^^^ (x >>> 3)
    let s1 := rotate y 17 ^^^ rotate y 19 ^^^ (y >>> 10)
    w.headD 0 :: schedule n (w.drop 1 ++ [cut (w.headD 0 + s0 + w.getD 9 0 + s1)])

def mixRound (r : Registers) (k : Nat) : Registers :=
  let s1 := rotate r.e 6 ^^^ rotate r.e 11 ^^^ rotate r.e 25
  let choice := (r.e &&& r.f) ^^^ ((r.e ^^^ 0xffffffff) &&& r.g)
  let t1 := r.h + s1 + choice + k
  let s0 := rotate r.a 2 ^^^ rotate r.a 13 ^^^ rotate r.a 22
  let majority := (r.a &&& r.b) ^^^ (r.a &&& r.c) ^^^ (r.b &&& r.c)
  ⟨cut (t1 + (s0 + majority)), r.a, r.b, r.c, cut (r.d + t1), r.e, r.f, r.g⟩

def compress (r : Registers) (words : List Nat) : Registers :=
  let m := (List.zipWith (· + ·) roundConstants (schedule 64 words)).foldl mixRound r
  ⟨cut (r.a + m.a), cut (r.b + m.b), cut (r.c + m.c), cut (r.d + m.d), cut (r.e + m.e), cut (r.f + m.f),
    cut (r.g + m.g), cut (r.h + m.h)⟩

/-- A one bit, zeros up to eight bytes before a multiple of sixty-four, and the length in bits. -/
def padded (bytes : List UInt8) : List Nat :=
  let n := bytes.length
  let zeros := (119 - n % 64) % 64
  let bits := 8 * n
  bytes.map UInt8.toNat ++ 0x80 :: List.replicate zeros 0
    ++ (List.range 8).map fun i => bits / Nat.pow 256 (7 - i) % 256

def word (bytes : List Nat) : Nat := bytes.foldl (fun n b => n * 256 + b) 0

def wordsOf : Nat → List Nat → List Nat
  | 0, _ => []
  | n + 1, bytes => word (bytes.take 4) :: wordsOf n (bytes.drop 4)

def digestBlocks : Nat → List Nat → Registers → Registers
  | 0, _, r => r
  | n + 1, bytes, r => digestBlocks n (bytes.drop 64) (compress r (wordsOf 16 bytes))

def hexWord (x : Nat) : List Char := (List.range 8).map fun i => Json.hexChar (x / Nat.pow 16 (7 - i) % 16)

def sha256Bytes (bytes : List UInt8) : String :=
  let p := padded bytes
  let r := digestBlocks (p.length / 64) p startRegisters
  String.ofList ([r.a, r.b, r.c, r.d, r.e, r.f, r.g, r.h].flatMap hexWord)

def sha256 (s : String) : String := sha256Bytes s.toUTF8.toList

end SecScan.Digest
