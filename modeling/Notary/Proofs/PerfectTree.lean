import Mathlib.Data.Nat.Log
import Notary.Proofs.MerkleBinding

/-! Merkle roots, described instead of computed. Bytes are cut where their positions say, and a list
of chunks is filled up with zero chunks to the leaves of a perfect tree, whose root is hashed from
the roots of its halves. Climbing the list level by level comes to the same root. -/

namespace Notary.Merkle

/-- The first bytes of a list, and zeros after them where they are fewer than a chunk has. -/
def chunkOf (bs : List UInt8) : Chunk :=
  ⟨(bs.take 32 ++ List.replicate (32 - bs.length) 0).toArray, by
    rw [List.size_toArray, List.length_append, List.length_take, List.length_replicate]
    omega⟩

/-- The chunks that bytes are cut into; zeros fill the last one. -/
def chunks (bs : List UInt8) : List Chunk :=
  (List.range ((bs.length + 31) / 32)).map fun i => chunkOf (bs.drop (32 * i))

/-- The root of the perfect tree that has the first `1 <<< k` chunks for its leaves. -/
def perfectRoot : Nat → List Chunk → Chunk
  | 0, cs => cs.headD zeroChunk
  | k + 1, cs => hashPair (perfectRoot k (cs.take (1 <<< k))) (perfectRoot k (cs.drop (1 <<< k)))

/-- The root over the least perfect tree that has a leaf for each chunk. -/
def treeRoot : List Chunk → Chunk
  | [] => zeroChunk
  | cs =>
    let k := Nat.clog 2 cs.length
    perfectRoot k (cs.rightpad (1 <<< k) zeroChunk)

/-- A count as a chunk of its own, the least byte first. -/
def countChunk (n : UInt64) : Chunk := chunkOf (littleEndian 32 n.toNat)

/-- A byte at a time, what is not there reads as zero. -/
theorem padded_eq_chunkOf (bs : List UInt8) : Octets.padded 32 bs = chunkOf bs := by
  apply Vector.ext
  intro i hi
  rw [Octets.getElem_padded, List.getD_eq_getElem?_getD]
  simp only [chunkOf, Vector.getElem_mk, List.getElem_toArray]
  rcases Nat.lt_or_ge i bs.length with h | h
  · have ht : i < (bs.take 32).length := by
      rw [List.length_take]
      omega
    rw [List.getElem_append_left ht, List.getElem_take, List.getElem?_eq_getElem h,
      Option.getD_some]
  · have ht : (bs.take 32).length ≤ i := by
      rw [List.length_take]
      omega
    rw [List.getElem_append_right ht, List.getElem_replicate, List.getElem?_eq_none h,
      Option.getD_none]

theorem chunkOf_take (bs : List UInt8) : chunkOf (bs.take 32) = chunkOf bs := by
  have hz : 32 - (bs.take 32).length = 32 - bs.length := by
    rw [List.length_take]
    omega
  simp only [chunkOf, List.take_take, Nat.min_self, hz]

theorem chunks_eq_cons {bs : List UInt8} (h : bs ≠ []) :
    chunks bs = chunkOf bs :: chunks (bs.drop 32) := by
  have hl : 0 < bs.length := List.length_pos_iff.2 h
  have hn : (bs.length + 31) / 32 = ((bs.drop 32).length + 31) / 32 + 1 := by
    rw [List.length_drop]
    omega
  rw [chunks, hn, List.range_succ_eq_map, List.map_cons, List.map_map]
  simp only [chunks, Nat.mul_zero, List.drop_zero, List.drop_drop, Function.comp_def, Nat.mul_succ,
    Nat.add_comm]

/-- Cutting the pieces off one by one puts the cuts at every thirty-second byte. -/
theorem pack_eq_chunks (bs : List UInt8) : pack bs = chunks bs := by
  have key : ∀ (fuel : Nat) (bs : List UInt8), bs.length ≤ fuel →
      (cut.go 32 fuel bs).map (Octets.padded 32) = chunks bs := by
    intro fuel
    induction fuel with
    | zero =>
      intro bs h
      rw [List.eq_nil_of_length_eq_zero (Nat.le_zero.1 h)]
      rfl
    | succ fuel ih =>
      intro bs h
      cases bs with
      | nil => rfl
      | cons b bs =>
        have hd : ((b :: bs).drop 32).length ≤ fuel := by
          rw [List.length_drop]
          omega
        rw [cut.go, List.map_cons, ih _ hd, padded_eq_chunkOf, chunkOf_take,
          chunks_eq_cons (List.cons_ne_nil b bs)]
  exact key bs.length bs (Nat.le_refl _)

theorem level_take (m : Nat) (cs : List Chunk) : level (cs.take (2 * m)) = (level cs).take m := by
  induction m generalizing cs with
  | zero => rfl
  | succ m ih =>
    match cs with
    | [] => rfl
    | [_] => rfl
    | a :: b :: rest =>
      have h := congrArg (hashPair a b :: ·) (ih rest)
      simpa only [Nat.mul_succ, List.take_succ_cons, level] using h

theorem level_drop (m : Nat) (cs : List Chunk) : level (cs.drop (2 * m)) = (level cs).drop m := by
  induction m generalizing cs with
  | zero => rfl
  | succ m ih =>
    match cs with
    | [] => rfl
    | [_] => rfl
    | a :: b :: rest => simpa only [Nat.mul_succ, List.drop_succ_cons, level] using ih rest

/-- A tree over the leaves is one over the level above them, of one height less. -/
theorem perfectRoot_succ {k : Nat} {cs : List Chunk} (hl : cs.length = 1 <<< (k + 1)) :
    perfectRoot (k + 1) cs = perfectRoot k (level cs) := by
  induction k generalizing cs with
  | zero =>
    match cs, hl with
    | [a, b], _ => rfl
  | succ k ih =>
    -- Both halves have a whole number of pairs, so that the level of a half is half of the level.
    have hw : 1 <<< (k + 2) = 2 * 1 <<< (k + 1) := Nat.shiftLeft_succ 1 (k + 1)
    have ht : (cs.take (1 <<< (k + 1))).length = 1 <<< (k + 1) := by
      rw [List.length_take]
      omega
    have hd : (cs.drop (1 <<< (k + 1))).length = 1 <<< (k + 1) := by
      rw [List.length_drop]
      omega
    rw [perfectRoot, ih ht, ih hd, Nat.shiftLeft_succ, level_take, level_drop, perfectRoot]

theorem climb_eq_perfectRoot {n k : Nat} {cs : List Chunk} (hl : cs.length = 1 <<< k) (hk : k ≤ n) :
    climb n cs = [perfectRoot k cs] := by
  induction k generalizing n cs with
  | zero =>
    obtain ⟨c, rfl⟩ := List.length_eq_one_iff.1 hl
    cases n <;> rfl
  | succ k ih =>
    cases n with
    | zero => cases hk
    | succ n =>
      have hp : 0 < 1 <<< k := by
        rw [Nat.one_shiftLeft]
        exact Nat.two_pow_pos k
      have hc : ¬ cs.length ≤ 1 := by
        rw [hl, Nat.shiftLeft_succ]
        omega
      rw [climb, if_neg hc, ih (length_level_of_shift hl) (Nat.le_of_succ_le_succ hk),
        perfectRoot_succ hl]

/-- A list of no chunk or of one is not climbed, but has the same root. -/
theorem root_eq_perfectRoot (cs : List Chunk) :
    root cs = perfectRoot (depth cs.length) (fill cs) := by
  match cs with
  | [] => rfl
  | [c] => rfl
  | a :: b :: rest =>
    have hc := climb_eq_perfectRoot (length_fill (a :: b :: rest)) (depth_le _)
    exact congrArg (fun cs => cs.headD zeroChunk) hc

theorem depth_eq_clog (n : Nat) : depth n = Nat.clog 2 n := by
  have key : ∀ k, depth n ≤ k ↔ n ≤ 1 <<< k := by
    intro k
    rw [depth, Nat.one_shiftLeft]
    split
    · have hp := Nat.two_pow_pos k
      omega
    · have hn : n - 1 ≠ 0 := by omega
      have hk : (n - 1).log2 < k ↔ n - 1 < 2 ^ k := Nat.log2_lt hn
      omega
  have hc : ∀ k, Nat.clog 2 n ≤ k ↔ n ≤ 1 <<< k := by
    intro k
    rw [Nat.one_shiftLeft]
    exact Nat.clog_le_iff_le_pow (by decide)
  exact Nat.le_antisymm ((key _).2 ((hc _).1 (Nat.le_refl _)))
    ((hc _).2 ((key _).1 (Nat.le_refl _)))

theorem fill_eq_rightpad (cs : List Chunk) :
    fill cs = cs.rightpad (1 <<< Nat.clog 2 cs.length) zeroChunk := by
  rw [fill, width, depth_eq_clog]
  rfl

theorem root_eq_treeRoot (cs : List Chunk) : root cs = treeRoot cs := by
  cases cs with
  | nil => rfl
  | cons c cs =>
    rw [root_eq_perfectRoot, depth_eq_clog, fill_eq_rightpad]
    rfl

theorem littleEndian_zero (k : Nat) : littleEndian k 0 = List.replicate k 0 := by
  induction k with
  | zero => rfl
  | succ k ih =>
    rw [littleEndian, Nat.zero_div, ih, List.replicate_succ]
    rfl

theorem littleEndian_add (j k n : Nat) :
    littleEndian (j + k) n = littleEndian j n ++ littleEndian k (n / 1 <<< (8 * j)) := by
  induction j generalizing n with
  | zero => simp [littleEndian]
  | succ j ih =>
    rw [Nat.succ_add, littleEndian, littleEndian, ih, List.cons_append, Nat.div_div_eq_div_mul]
    congr 3
    rw [Nat.one_shiftLeft, Nat.one_shiftLeft, Nat.mul_succ, Nat.add_comm, Nat.pow_add]

theorem littleEndian_mod (k n : Nat) : littleEndian k (n % 1 <<< (8 * k)) = littleEndian k n := by
  rw [Nat.one_shiftLeft]
  induction k generalizing n with
  | zero => rfl
  | succ k ih =>
    have hp : 2 ^ (8 * (k + 1)) = 256 * 2 ^ (8 * k) := by
      rw [Nat.mul_succ, Nat.add_comm, Nat.pow_add]
    have hb : UInt8.ofNat (n % (256 * 2 ^ (8 * k))) = UInt8.ofNat n := by
      rw [← UInt8.toNat_inj, UInt8.toNat_ofNat', UInt8.toNat_ofNat']
      exact Nat.mod_mul_right_mod n 256 _
    rw [hp, littleEndian, littleEndian, hb, Nat.mod_mul_right_div_self, ih]

/-- Zeros at the end add nothing to a chunk. -/
theorem padded_append_zeros (bs : List UInt8) (k : Nat) :
    Octets.padded 32 (bs ++ List.replicate k 0) = Octets.padded 32 bs := by
  apply Vector.ext
  intro i hi
  rw [Octets.getElem_padded, Octets.getElem_padded, List.getD_eq_getElem?_getD,
    List.getD_eq_getElem?_getD]
  rcases Nat.lt_or_ge i bs.length with h | h
  · rw [List.getElem?_append_left h]
  · rw [List.getElem?_append_right h, List.getElem?_eq_none h, List.getElem?_replicate]
    split <;> rfl

theorem lengthChunk_eq_countChunk (n : Nat) : lengthChunk n = countChunk (UInt64.ofNat n) := by
  have hm : (UInt64.ofNat n).toNat = n % 1 <<< 64 := UInt64.toNat_ofNat'
  have hz : n % 1 <<< 64 / 1 <<< 64 = 0 := Nat.div_eq_of_lt (Nat.mod_lt n (by decide))
  have hs : littleEndian 32 (n % 1 <<< 64) = littleEndian 8 n ++ List.replicate 24 0 := by
    have ha := littleEndian_add 8 24 (n % 1 <<< 64)
    rwa [littleEndian_mod 8 n, hz, littleEndian_zero] at ha
  rw [lengthChunk, countChunk, hm, hs, ← padded_eq_chunkOf, padded_append_zeros]

theorem mixInLength_eq (r : Chunk) (n : Nat) :
    mixInLength r n = hashPair r (countChunk (UInt64.ofNat n)) :=
  congrArg (hashPair r) (lengthChunk_eq_countChunk n)

end Notary.Merkle
