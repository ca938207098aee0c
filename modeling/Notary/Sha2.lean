import Notary.Octets

/-! The SHA-2 family over words of one type: schedule, rounds and padding are written once, and
SHA-256 and SHA-512 differ in the word and in the amounts of their rotations. Both take their
constants from the square and cube roots of the first primes, SHA-256 the upper halves. -/

namespace Notary

namespace Sha2

class Word (ω : Type) extends Add ω, XorOp ω, AndOp ω, OrOp ω, Complement ω where
  /-- How many bytes a word has. -/
  width : Nat
  ofNat : Nat → ω
  toNat : ω → Nat
  shiftRight : ω → Nat → ω
  rotateRight : ω → Nat → ω

instance : Word UInt32 where
  width := 4
  ofNat := UInt32.ofNat
  toNat := UInt32.toNat
  shiftRight x n := x >>> UInt32.ofNat n
  rotateRight x n := x >>> UInt32.ofNat n ||| x <<< UInt32.ofNat (32 - n)

instance : Word UInt64 where
  width := 8
  ofNat := UInt64.ofNat
  toNat := UInt64.toNat
  shiftRight x n := x >>> UInt64.ofNat n
  rotateRight x n := x >>> UInt64.ofNat n ||| x <<< UInt64.ofNat (64 - n)

/-- The amounts by which a member of the family rotates: three for each of the two sums of a
round; two, and then a shift, for each of the two sums of the schedule. -/
structure Rotations where
  sum0 : Nat × Nat × Nat
  sum1 : Nat × Nat × Nat
  sigma0 : Nat × Nat × Nat
  sigma1 : Nat × Nat × Nat

structure Variant (ω : Type) where
  rotations : Rotations
  initial : Vector ω 8
  constants : List ω

section
variable {ω : Type} [Word ω]

def rotateSum (r : Nat × Nat × Nat) (x : ω) : ω :=
  Word.rotateRight x r.1 ^^^ Word.rotateRight x r.2.1 ^^^ Word.rotateRight x r.2.2

def shiftSum (r : Nat × Nat × Nat) (x : ω) : ω :=
  Word.rotateRight x r.1 ^^^ Word.rotateRight x r.2.1 ^^^ Word.shiftRight x r.2.2

def choose (x y z : ω) : ω := x &&& y ^^^ ~~~x &&& z

def majority (x y z : ω) : ω := x &&& y ^^^ x &&& z ^^^ y &&& z

/-- Extends a window of sixteen words by `n` more, each made of four of the sixteen before it. -/
def schedule (r : Rotations) : Nat → List ω → List ω
  | 0, window => window
  | _ + 1, [] => []
  | n + 1, w :: ws =>
    let word i := ws.getD i w
    w :: schedule r n
      (ws ++ [shiftSum r.sigma1 (word 13) + word 8 + shiftSum r.sigma0 (word 0) + w])

def round (r : Rotations) (s : Vector ω 8) (w k : ω) : Vector ω 8 :=
  let t := s[7] + rotateSum r.sum1 s[4] + choose s[4] s[5] s[6] + k + w
  let u := rotateSum r.sum0 s[0] + majority s[0] s[1] s[2]
  #v[t + u, s[0], s[1], s[2], s[3] + t, s[4], s[5], s[6]]

def compress (v : Variant ω) (s : Vector ω 8) (block : List ω) : Vector ω 8 :=
  let words := schedule v.rotations (v.constants.length - 16) block
  let rounds := (words.zip v.constants).foldl (fun s (w, k) => round v.rotations s w k) s
  s.zipWith (· + ·) rounds

/-- A one bit, zeros, and the length in bits, to a whole number of blocks of sixteen words. -/
def pad (width : Nat) (message : List UInt8) : List UInt8 :=
  let block := 16 * width
  let used := message.length + 1 + 2 * width
  message ++ 0x80 :: List.replicate ((block - used % block) % block) 0
    ++ bigEndian (2 * width) (8 * message.length)

def blocks (ω : Type) [Word ω] (message : List UInt8) : List (List ω) :=
  let width := Word.width ω
  (cut (16 * width) (pad width message)).map fun block =>
    (cut width block).map fun bs => Word.ofNat (ofBigEndian bs)

def octets (s : Vector ω 8) : Octets (8 * Word.width ω) :=
  ⟨(s.toList.flatMap fun w => bigEndian (Word.width ω) (Word.toNat w)).toArray, by
    have h : ∀ ws : List ω, (ws.flatMap fun w => bigEndian (Word.width ω) (Word.toNat w)).length
        = ws.length * Word.width ω := by
      intro ws
      induction ws with
      | nil => simp
      | cons w ws ih => simp [ih, Nat.succ_mul, Nat.add_comm]
    simp [h]⟩

def hash (v : Variant ω) (message : List UInt8) : Octets (8 * Word.width ω) :=
  octets ((blocks ω message).foldl (compress v) v.initial)

end

/-- The first 64 bits of the fractional parts of the square roots of the first eight primes. -/
def squareRoots : List UInt64 :=
  [0x6a09e667f3bcc908, 0xbb67ae8584caa73b, 0x3c6ef372fe94f82b, 0xa54ff53a5f1d36f1,
   0x510e527fade682d1, 0x9b05688c2b3e6c1f, 0x1f83d9abfb41bd6b, 0x5be0cd19137e2179]

/-- The first 64 bits of the fractional parts of the cube roots of the first eighty primes. -/
def cubeRoots : List UInt64 :=
  [0x428a2f98d728ae22, 0x7137449123ef65cd, 0xb5c0fbcfec4d3b2f, 0xe9b5dba58189dbbc,
   0x3956c25bf348b538, 0x59f111f1b605d019, 0x923f82a4af194f9b, 0xab1c5ed5da6d8118,
   0xd807aa98a3030242, 0x12835b0145706fbe, 0x243185be4ee4b28c, 0x550c7dc3d5ffb4e2,
   0x72be5d74f27b896f, 0x80deb1fe3b1696b1, 0x9bdc06a725c71235, 0xc19bf174cf692694,
   0xe49b69c19ef14ad2, 0xefbe4786384f25e3, 0x0fc19dc68b8cd5b5, 0x240ca1cc77ac9c65,
   0x2de92c6f592b0275, 0x4a7484aa6ea6e483, 0x5cb0a9dcbd41fbd4, 0x76f988da831153b5,
   0x983e5152ee66dfab, 0xa831c66d2db43210, 0xb00327c898fb213f, 0xbf597fc7beef0ee4,
   0xc6e00bf33da88fc2, 0xd5a79147930aa725, 0x06ca6351e003826f, 0x142929670a0e6e70,
   0x27b70a8546d22ffc, 0x2e1b21385c26c926, 0x4d2c6dfc5ac42aed, 0x53380d139d95b3df,
   0x650a73548baf63de, 0x766a0abb3c77b2a8, 0x81c2c92e47edaee6, 0x92722c851482353b,
   0xa2bfe8a14cf10364, 0xa81a664bbc423001, 0xc24b8b70d0f89791, 0xc76c51a30654be30,
   0xd192e819d6ef5218, 0xd69906245565a910, 0xf40e35855771202a, 0x106aa07032bbd1b8,
   0x19a4c116b8d2d0c8, 0x1e376c085141ab53, 0x2748774cdf8eeb99, 0x34b0bcb5e19b48a8,
   0x391c0cb3c5c95a63, 0x4ed8aa4ae3418acb, 0x5b9cca4f7763e373, 0x682e6ff3d6b2b8a3,
   0x748f82ee5defb2fc, 0x78a5636f43172f60, 0x84c87814a1f0ab72, 0x8cc702081a6439ec,
   0x90befffa23631e28, 0xa4506cebde82bde9, 0xbef9a3f7b2c67915, 0xc67178f2e372532b,
   0xca273eceea26619c, 0xd186b8c721c0c207, 0xeada7dd6cde0eb1e, 0xf57d4f7fee6ed178,
   0x06f067aa72176fba, 0x0a637dc5a2c898a6, 0x113f9804bef90dae, 0x1b710b35131c471b,
   0x28db77f523047d84, 0x32caab7b40c72493, 0x3c9ebe0a15c9bebc, 0x431d67c49c100d4c,
   0x4cc5d4becb3e42b6, 0x597f299cfc657e2a, 0x5fcb6fab3ad6faec, 0x6c44198c4a475817]

def upperHalf (x : UInt64) : UInt32 := UInt32.ofNat (x.toNat >>> 32)

def long : Variant UInt64 where
  rotations := ⟨(28, 34, 39), (14, 18, 41), (1, 8, 7), (19, 61, 6)⟩
  initial := .ofFn fun i => squareRoots.getD i 0
  constants := cubeRoots

def short : Variant UInt32 where
  rotations := ⟨(2, 13, 22), (6, 11, 25), (7, 18, 3), (17, 19, 10)⟩
  initial := .ofFn fun i => upperHalf (squareRoots.getD i 0)
  constants := (cubeRoots.take 64).map upperHalf

end Sha2

def sha256 (message : List UInt8) : Octets 32 := Sha2.hash Sha2.short message

def sha512 (message : List UInt8) : Octets 64 := Sha2.hash Sha2.long message

end Notary
