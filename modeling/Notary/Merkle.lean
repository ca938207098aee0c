import Notary.Sha2

/-! Merkle roots of lists of 32-byte chunks. The list is filled up with zero chunks to a power
of two and then halved, level by level, until one chunk is left. -/

namespace Notary

abbrev Chunk := Octets 32

namespace Merkle

def zeroChunk : Chunk := Octets.zero 32

def hashPair (left right : Chunk) : Chunk := sha256 (left.toList ++ right.toList)

def pack (bs : List UInt8) : List Chunk := (cut 32 bs).map (Octets.padded 32)

/-- The bytes of one chunk are packed into that chunk. -/
theorem pack_toList (c : Chunk) : pack c.toList = [c] := by
  have hc : cut 32 c.toList = [c.toList] := by
    obtain ⟨b, bs, hb⟩ := List.exists_cons_of_length_eq_add_one c.length_toList
    have hl : bs.length = 31 := by
      have h := c.length_toList
      rw [hb] at h
      exact Nat.succ.inj h
    rw [hb, cut, List.length_cons, cut.go, List.take_of_length_le (by simp [hl]),
      List.drop_eq_nil_of_le (by simp [hl]), hl, cut.go]
  rw [pack, hc, List.map_singleton, Octets.padded_toList]

/-- How many levels stand above `n` chunks. -/
def depth (n : Nat) : Nat := if n ≤ 1 then 0 else (n - 1).log2 + 1

/-- The least power of two that is not below `n`. -/
def width (n : Nat) : Nat := 1 <<< depth n

def fill (cs : List Chunk) : List Chunk :=
  cs ++ List.replicate (width cs.length - cs.length) zeroChunk

def level : List Chunk → List Chunk
  | a :: b :: rest => hashPair a b :: level rest
  | _ => []

/-- Halves the list for as long as it holds more than one chunk, at most `n` times. -/
def climb : Nat → List Chunk → List Chunk
  | 0, cs => cs
  | n + 1, cs => if cs.length ≤ 1 then cs else climb n (level cs)

def root : List Chunk → Chunk
  | [] => zeroChunk
  | [c] => c
  | cs => (climb cs.length (fill cs)).headD zeroChunk

def mixInLength (r : Chunk) (n : Nat) : Chunk :=
  hashPair r (Octets.padded 32 (littleEndian 8 n))

theorem le_width (n : Nat) : n ≤ width n := by
  rw [width, Nat.one_shiftLeft, depth]
  split
  · simpa using ‹n ≤ 1›
  · have h : n - 1 < 2 ^ ((n - 1).log2 + 1) := Nat.lt_log2_self
    omega

theorem length_fill (cs : List Chunk) : (fill cs).length = width cs.length := by
  have h := le_width cs.length
  simp only [fill, List.length_append, List.length_replicate]
  omega

theorem length_level : ∀ cs : List Chunk, (level cs).length = cs.length / 2
  | [] => by simp [level]
  | [_] => by simp [level]
  | _ :: _ :: rest => by
    simp only [level, List.length_cons, length_level rest]
    omega

end Merkle

end Notary
