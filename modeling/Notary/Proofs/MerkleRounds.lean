import Mathlib.Algebra.Group.Nat.Defs
import Mathlib.Order.Bounds.Basic
import Notary.Proofs.PerfectTree

/-! The climb to a Merkle root, round by round. A list that is filled up to a power of two stays one
at every round, so that each chunk has a partner in each of them, and the climb is over after as many
rounds as the power says. Filling a list up by hand, wholly or in part, comes to the same root. -/

namespace Notary.Merkle

/-- A round is due, and leaves no chunk out. -/
structure Round (cs : List Chunk) : Prop where
  due : 1 < cs.length
  power : ∃ k, cs.length = 2 ^ k
  whole : (pairs cs).flatMap (fun p => [p.1, p.2]) = cs

/-- So many rounds lead from one list to another, and there no further one is due. -/
inductive Rounds : Nat → List Chunk → List Chunk → Prop
  | finished {cs : List Chunk} (h : cs.length ≤ 1) : Rounds 0 cs cs
  | round {k : Nat} {cs ds : List Chunk} (h : Round cs) (hr : Rounds k (level cs) ds) :
      Rounds (k + 1) cs ds

/-- A climb that may go on for longer stops after these rounds. -/
theorem Rounds.climb_eq {n k : Nat} {cs ds : List Chunk} (h : Rounds k cs ds) (hk : k ≤ n) :
    climb n cs = ds := by
  induction h generalizing n with
  | finished h =>
    cases n with
    | zero => rfl
    | succ n => rw [climb, if_pos h]
  | round h hr ih =>
    obtain ⟨n, rfl⟩ := Nat.exists_eq_add_of_le' ((Nat.le_add_left 1 _).trans hk)
    rw [climb, if_neg (Nat.not_le.2 h.due)]
    exact ih (Nat.le_of_succ_le_succ hk)

theorem flatMap_pairs {m : Nat} {cs : List Chunk} (hl : cs.length = 2 * m) :
    (pairs cs).flatMap (fun p => [p.1, p.2]) = cs := by
  induction m generalizing cs with
  | zero => simp [List.eq_nil_of_length_eq_zero hl, pairs]
  | succ m ih =>
    match cs, hl with
    | a :: b :: rest, hl =>
      have hr : rest.length = 2 * m := Nat.succ.inj (Nat.succ.inj hl)
      simp [pairs, ih hr]

theorem rounds_of_length {k : Nat} {cs : List Chunk} (hl : cs.length = 1 <<< k) :
    Rounds k cs [perfectRoot k cs] := by
  induction k generalizing cs with
  | zero =>
    obtain ⟨c, rfl⟩ := List.length_eq_one_iff.1 hl
    exact .finished (Nat.le_refl 1)
  | succ k ih =>
    have hm : cs.length = 2 * 1 <<< k := hl.trans (Nat.shiftLeft_succ 1 k)
    have hp : 0 < 1 <<< k := by
      rw [Nat.one_shiftLeft]
      exact Nat.two_pow_pos k
    have hround : Round cs :=
      ⟨by omega, ⟨k + 1, hl.trans (Nat.one_shiftLeft _)⟩, flatMap_pairs hm⟩
    rw [perfectRoot_succ hl]
    exact .round hround (ih (length_level_of_shift hl))

theorem isLeast_width (n : Nat) : IsLeast {w | n ≤ w ∧ ∃ k, w = 2 ^ k} (width n) := by
  refine ⟨⟨le_width n, depth n, Nat.one_shiftLeft _⟩, ?_⟩
  rintro m ⟨hn, k, rfl⟩
  rw [width, Nat.one_shiftLeft, depth_eq_clog]
  exact Nat.pow_le_pow_right (by decide) ((Nat.clog_le_iff_le_pow (by decide)).2 hn)

/-- Between a number and its width there is no power of two that is smaller than that. -/
theorem depth_add {n i : Nat} (h : n + i ≤ width n) : depth (n + i) = depth n := by
  rw [width, Nat.one_shiftLeft, depth_eq_clog] at h
  rw [depth_eq_clog, depth_eq_clog]
  apply Nat.le_antisymm
  · exact (Nat.clog_le_iff_le_pow (by decide)).2 h
  · exact Nat.clog_mono_right 2 (Nat.le_add_right n i)

theorem root_append_zeros {cs : List Chunk} {i : Nat} (h : cs.length + i ≤ width cs.length) :
    root (cs ++ List.replicate i zeroChunk) = root cs := by
  have hl : (cs ++ List.replicate i zeroChunk).length = cs.length + i := by simp
  have hd : depth (cs.length + i) = depth cs.length := depth_add h
  have hw : width (cs.length + i) = width cs.length := congrArg (1 <<< ·) hd
  have hi : i + (width cs.length - (cs.length + i)) = width cs.length - cs.length := by omega
  have hf : fill (cs ++ List.replicate i zeroChunk) = fill cs := by
    rw [fill, hl, hw, List.append_assoc, List.replicate_append_replicate, hi, fill]
  rw [root_eq_perfectRoot, root_eq_perfectRoot, hl, hd, hf]

/-- A climb from two chunks or more, beside the tree that it climbs. -/
theorem root_climbs {cs : List Chunk} (h : 2 ≤ cs.length) :
    let m := width cs.length
    let leaves := cs ++ List.replicate (m - cs.length) zeroChunk
    let half := perfectRoot (m.log2 - 1)
    IsLeast {w | cs.length ≤ w ∧ ∃ k, w = 2 ^ k} m ∧
      Rounds m.log2 leaves [root cs] ∧ climb cs.length leaves = [root cs] ∧
      root cs = hashPair (half (leaves.take (m / 2))) (half (leaves.drop (m / 2))) ∧
      (∀ i, cs.length + i ≤ m → root (cs ++ List.replicate i zeroChunk) = root cs) ∧
      ∀ ds, ds.length = cs.length → root ds = root cs →
        ds = cs ∨ Collision (rootPairs ds) (rootPairs cs) := by
  intro m leaves half
  have hm : m = 1 <<< depth cs.length := rfl
  have hk : m.log2 = depth cs.length := by
    rw [hm, Nat.one_shiftLeft]
    exact Nat.log2_two_pow
  have hl : leaves.length = 1 <<< depth cs.length := length_fill cs
  have hr : Rounds m.log2 leaves [root cs] := by
    rw [hk, root_eq_perfectRoot]
    exact rounds_of_length hl
  obtain ⟨k, hd⟩ : ∃ k, depth cs.length = k + 1 := by
    refine Nat.exists_eq_succ_of_ne_zero fun hz => ?_
    have hw : cs.length ≤ m := le_width cs.length
    rw [hm, hz] at hw
    exact absurd (h.trans hw) (by decide)
  have hh : m / 2 = 1 <<< k := by
    rw [hm, hd, Nat.shiftLeft_succ, Nat.mul_div_cancel_left _ (by decide)]
  refine ⟨isLeast_width cs.length, hr, hr.climb_eq (hk ▸ depth_le cs.length), ?_,
    fun i hi => root_append_zeros hi, fun ds hds => root_inj hds⟩
  have hroot : root cs = perfectRoot (depth cs.length) leaves := root_eq_perfectRoot cs
  rw [hroot, hd, hh, perfectRoot]
  simp only [half, hk, hd, Nat.add_sub_cancel]

/-- Three chunks are climbed in two rounds, with a zero chunk for the fourth. -/
theorem three_climbed :
    let cs : List Chunk := [.replicate 32 1, .replicate 32 2, .replicate 32 3]
    2 ≤ cs.length ∧ Rounds 2 (cs ++ [zeroChunk]) [root cs] ∧
      root cs = hashPair (hashPair (.replicate 32 1) (.replicate 32 2))
        (hashPair (.replicate 32 3) zeroChunk) ∧
      root (cs ++ [zeroChunk]) = root cs := by
  intro cs
  have hl : cs.length = 3 := rfl
  obtain ⟨-, hr, -, hh, hz, -⟩ := @root_climbs cs (by decide)
  simp only [hl] at hr hh hz
  exact ⟨by decide, hr, hh, hz 1 (by decide)⟩

end Notary.Merkle
