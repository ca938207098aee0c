import Notary.Proofs.Packing

/-! Merkle roots bind. Two lists of one length with one root are the same list, or somewhere below
the root two different pairs of chunks were hashed to the same chunk. Nothing is assumed of the
hash: the pairs that each root has hashed are listed, and the collision is found among them. -/

namespace Notary.Merkle

/-- The bytes that are hashed for a pair of chunks. -/
def input (p : Chunk × Chunk) : List UInt8 := p.1.toList ++ p.2.toList

theorem input_inj {p q : Chunk × Chunk} (h : input p = input q) : p = q := by
  have hl : p.1.toList.length = q.1.toList.length := by
    rw [Vector.length_toList, Vector.length_toList]
  obtain ⟨h₁, h₂⟩ := List.append_inj h hl
  exact Prod.ext (Vector.toList_inj.1 h₁) (Vector.toList_inj.1 h₂)

/-- Of the pairs hashed on either side, two are different and have the same hash. -/
def Collision (xs ys : List (Chunk × Chunk)) : Prop :=
  ∃ x ∈ xs, ∃ y ∈ ys, input x ≠ input y ∧ sha256 (input x) = sha256 (input y)

theorem Collision.mono {xs xs' ys ys' : List (Chunk × Chunk)} (h : Collision xs ys)
    (hx : xs ⊆ xs') (hy : ys ⊆ ys') : Collision xs' ys' := by
  obtain ⟨x, hxs, y, hys, hne, he⟩ := h
  exact ⟨x, hx hxs, y, hy hys, hne, he⟩

theorem Collision.symm {xs ys : List (Chunk × Chunk)} (h : Collision xs ys) : Collision ys xs := by
  obtain ⟨x, hx, y, hy, hne, he⟩ := h
  exact ⟨y, hy, x, hx, hne.symm, he.symm⟩

theorem Collision.append {xs ys : List (Chunk × Chunk)} (h : Collision xs ys)
    (us vs : List (Chunk × Chunk)) : Collision (xs ++ us) (ys ++ vs) :=
  h.mono (List.subset_append_left _ _) (List.subset_append_left _ _)

theorem Collision.prepend {us vs : List (Chunk × Chunk)} (h : Collision us vs)
    (xs ys : List (Chunk × Chunk)) : Collision (xs ++ us) (ys ++ vs) :=
  h.mono (List.subset_append_right _ _) (List.subset_append_right _ _)

theorem hashPair_inj {a b c d : Chunk} (h : hashPair a b = hashPair c d) :
    (a = c ∧ b = d) ∨ Collision [(a, b)] [(c, d)] := by
  by_cases hp : (a, b) = (c, d)
  · exact Or.inl (Prod.mk.inj hp)
  · exact Or.inr ⟨_, List.mem_cons_self, _, List.mem_cons_self, fun hi => hp (input_inj hi), h⟩

/-- The pairs that are hashed for a level. -/
def pairs : List Chunk → List (Chunk × Chunk)
  | a :: b :: rest => (a, b) :: pairs rest
  | _ => []

/-- A level is made of what its pairs hash to. -/
theorem level_eq_map : ∀ cs : List Chunk, level cs = (pairs cs).map fun p => hashPair p.1 p.2
  | [] => rfl
  | [_] => rfl
  | a :: b :: rest => congrArg (hashPair a b :: ·) (level_eq_map rest)

/-- The pairs that are hashed on the way up, level by level. -/
def climbPairs : Nat → List Chunk → List (Chunk × Chunk)
  | 0, _ => []
  | n + 1, cs => if cs.length ≤ 1 then [] else pairs cs ++ climbPairs n (level cs)

def rootPairs : List Chunk → List (Chunk × Chunk)
  | [] => []
  | [_] => []
  | cs => climbPairs cs.length (fill cs)

theorem level_inj {m : Nat} {cs cs' : List Chunk} (hl : cs.length = 2 * m)
    (hl' : cs'.length = 2 * m) (h : level cs = level cs') :
    cs = cs' ∨ Collision (pairs cs) (pairs cs') := by
  induction m generalizing cs cs' with
  | zero =>
    rw [List.eq_nil_of_length_eq_zero hl, List.eq_nil_of_length_eq_zero hl']
    exact Or.inl rfl
  | succ m ih =>
    obtain ⟨a, b, rest, rfl⟩ : ∃ a b rest, cs = a :: b :: rest := by
      match cs, hl with
      | a :: b :: rest, _ => exact ⟨a, b, rest, rfl⟩
    obtain ⟨c, d, rest', rfl⟩ : ∃ c d rest', cs' = c :: d :: rest' := by
      match cs', hl' with
      | c :: d :: rest', _ => exact ⟨c, d, rest', rfl⟩
    obtain ⟨hh, ht⟩ := List.cons.inj h
    have hr : rest.length = 2 * m := Nat.succ.inj (Nat.succ.inj hl)
    have hr' : rest'.length = 2 * m := Nat.succ.inj (Nat.succ.inj hl')
    rcases hashPair_inj hh with ⟨rfl, rfl⟩ | hc
    · rcases ih hr hr' ht with rfl | hc
      · exact Or.inl rfl
      · exact Or.inr (hc.prepend [_] [_])
    · exact Or.inr (hc.append (pairs rest) (pairs rest'))

theorem length_level_of_shift {k : Nat} {cs : List Chunk} (hl : cs.length = 1 <<< (k + 1)) :
    (level cs).length = 1 <<< k := by
  rw [length_level, hl, Nat.shiftLeft_succ, Nat.mul_div_cancel_left _ (by decide)]

/-- The number of chunks is a power of two, so that no level leaves one out. -/
theorem climb_inj {n k : Nat} {cs cs' : List Chunk} (hl : cs.length = 1 <<< k)
    (hl' : cs'.length = 1 <<< k) (h : climb n cs = climb n cs') :
    cs = cs' ∨ Collision (climbPairs n cs) (climbPairs n cs') := by
  -- The lists are told apart level by level, from the top down to the chunks themselves.
  induction n generalizing k cs cs' with
  | zero => exact Or.inl h
  | succ n ih =>
    rw [climb, climb, hl, hl'] at h
    rw [climbPairs, climbPairs, hl, hl']
    by_cases hk : 1 <<< k ≤ 1
    · rw [if_pos hk, if_pos hk] at h
      exact Or.inl h
    · rw [if_neg hk, if_neg hk] at h ⊢
      cases k with
      | zero => exact absurd (Nat.le_refl 1) hk
      | succ k =>
        rcases ih (length_level_of_shift hl) (length_level_of_shift hl') h with he | hc
        · rw [Nat.shiftLeft_succ] at hl hl'
          rcases level_inj hl hl' he with rfl | hc
          · exact Or.inl rfl
          · exact Or.inr (hc.append _ _)
        · exact Or.inr (hc.prepend _ _)

theorem length_climb {n k : Nat} {cs : List Chunk} (hl : cs.length = 1 <<< k) (hk : k ≤ n) :
    (climb n cs).length = 1 := by
  induction n generalizing k cs with
  | zero =>
    rw [Nat.le_zero.1 hk] at hl
    exact hl
  | succ n ih =>
    unfold climb
    cases k with
    | zero =>
      have hc : cs.length = 1 := hl
      rw [if_pos (Nat.le_of_eq hc)]
      exact hc
    | succ k =>
      have hp : 0 < 1 <<< k := by
        rw [Nat.one_shiftLeft]
        exact Nat.two_pow_pos k
      have hc : ¬ cs.length ≤ 1 := by
        rw [hl, Nat.shiftLeft_succ]
        omega
      rw [if_neg hc]
      exact ih (length_level_of_shift hl) (Nat.le_of_succ_le_succ hk)

theorem depth_le (n : Nat) : depth n ≤ n := by
  unfold depth
  split
  · exact Nat.zero_le n
  · have h := Nat.log2_le_self (n - 1)
    omega

theorem length_climb_fill (cs : List Chunk) : (climb cs.length (fill cs)).length = 1 :=
  length_climb (length_fill cs) (depth_le cs.length)

theorem fill_inj {cs cs' : List Chunk} (hl : cs.length = cs'.length) (h : fill cs = fill cs') :
    cs = cs' := (List.append_inj h hl).1

theorem root_inj {cs cs' : List Chunk} (hl : cs.length = cs'.length) (h : root cs = root cs') :
    cs = cs' ∨ Collision (rootPairs cs) (rootPairs cs') := by
  match cs, cs', hl with
  | [], [], _ => exact Or.inl rfl
  | [c], [c'], _ => exact Or.inl (congrArg ([·]) h)
  | a :: b :: rest, a' :: b' :: rest', hl =>
    change (climb (a :: b :: rest).length (fill _)).headD _ =
      (climb (a' :: b' :: rest').length (fill _)).headD _ at h
    change _ ∨ Collision (climbPairs (a :: b :: rest).length (fill _))
      (climbPairs (a' :: b' :: rest').length (fill _))
    have hw := length_fill (a :: b :: rest)
    have hw' := length_fill (a' :: b' :: rest')
    -- Both climbs end in a single chunk, the root.
    obtain ⟨x, hx⟩ := List.length_eq_one_iff.1 (length_climb_fill (a :: b :: rest))
    obtain ⟨x', hx'⟩ := List.length_eq_one_iff.1 (length_climb_fill (a' :: b' :: rest'))
    rw [hx, hx'] at h
    have he : x = x' := h
    have hc := hx.trans (he ▸ hx'.symm)
    rw [← hl] at hc hw' ⊢
    exact (climb_inj hw hw' hc).imp (fill_inj hl) id

/-- The chunk that stands for a length. -/
def lengthChunk (n : Nat) : Chunk := Octets.padded 32 (littleEndian 8 n)

theorem lengthChunk_inj {n n' : Nat} (hn : n < UInt64.size) (hn' : n' < UInt64.size)
    (h : lengthChunk n = lengthChunk n') : n = n' := by
  have hb : littleEndian 8 n = littleEndian 8 n' := by
    apply Octets.padded_inj _ _ h
    · rw [length_littleEndian]
      decide
    · rw [length_littleEndian, length_littleEndian]
  exact littleEndian_inj hn hn' hb

theorem mixInLength_inj {r r' : Chunk} {n n' : Nat} (hn : n < UInt64.size)
    (hn' : n' < UInt64.size) (h : mixInLength r n = mixInLength r' n') :
    (r = r' ∧ n = n') ∨ Collision [(r, lengthChunk n)] [(r', lengthChunk n')] := by
  rcases hashPair_inj h with ⟨hr, hc⟩ | hc
  · exact Or.inl ⟨hr, lengthChunk_inj hn hn' hc⟩
  · exact Or.inr hc

end Notary.Merkle
