import Mathlib.Data.List.Forall2
import Mathlib.Logic.Function.Iterate
import Notary.Proofs.Context
import Notary.Proofs.PayloadBinding
import Notary.Proofs.PerfectTree

/-! Structs with fields left out. Their root is a Merkle root over the fields that are written, and
nothing in it says which fields these are or how many. Lists of chunks have one root exactly, short
of a collision, when they are levels of one tree: filled up with zero chunks, the one is what the
other comes to after some levels. -/

namespace Notary

namespace Merkle

/-- The tree over `ds` is the higher one by some levels, and that many levels up stands what the
tree over `cs` has for its leaves. -/
def IsLevelOf (cs ds : List Chunk) : Prop :=
  ∃ j, depth ds.length = depth cs.length + j ∧ fill cs = level^[j] (fill ds)

theorem rootPairs_eq (cs : List Chunk) : rootPairs cs = climbPairs cs.length (fill cs) := by
  match cs with
  | [] => rfl
  | [c] => rfl
  | a :: b :: rest => rfl

theorem length_level_iterate {j k : Nat} {cs : List Chunk} (hl : cs.length = 1 <<< (k + j)) :
    (level^[j] cs).length = 1 <<< k := by
  induction j generalizing cs with
  | zero => exact hl
  | succ j ih => exact ih (length_level_of_shift hl)

theorem perfectRoot_level_iterate {j k : Nat} {cs : List Chunk} (hl : cs.length = 1 <<< (k + j)) :
    perfectRoot k (level^[j] cs) = perfectRoot (k + j) cs := by
  induction j generalizing cs with
  | zero => rfl
  | succ j ih => exact (ih (length_level_of_shift hl)).trans (perfectRoot_succ hl).symm

theorem climbPairs_subset {m n : Nat} (h : m ≤ n) (cs : List Chunk) :
    climbPairs m cs ⊆ climbPairs n cs := by
  induction m generalizing n cs with
  | zero => exact List.nil_subset _
  | succ m ih =>
    cases n with
    | zero => cases h
    | succ n =>
      rw [climbPairs, climbPairs]
      split
      · exact List.Subset.refl _
      · exact List.append_subset.2 ⟨List.subset_append_left _ _,
          List.subset_append_of_subset_right _ (ih (Nat.le_of_succ_le_succ h) (level cs))⟩

/-- What is hashed from some level on is hashed from the leaves on. -/
theorem climbPairs_level_iterate_subset {j k n : Nat} {cs : List Chunk}
    (hl : cs.length = 1 <<< (k + j)) (hn : k + j ≤ n) :
    climbPairs k (level^[j] cs) ⊆ climbPairs n cs := by
  induction j generalizing n cs with
  | zero => exact climbPairs_subset hn cs
  | succ j ih =>
    cases n with
    | zero => cases hn
    | succ n =>
      have hc : ¬ cs.length ≤ 1 := by
        have hp := Nat.two_pow_pos (k + j)
        rw [hl, ← Nat.add_assoc, Nat.shiftLeft_succ, Nat.one_shiftLeft]
        omega
      rw [climbPairs, if_neg hc]
      exact List.subset_append_of_subset_right _
        (ih (length_level_of_shift hl) (Nat.le_of_succ_le_succ hn))

theorem IsLevelOf.root_eq {cs ds : List Chunk} (h : IsLevelOf cs ds) : root cs = root ds := by
  obtain ⟨j, hj, he⟩ := h
  have hl : (fill ds).length = 1 <<< (depth cs.length + j) := hj ▸ length_fill ds
  rw [root_eq_perfectRoot cs, root_eq_perfectRoot ds, he, hj, perfectRoot_level_iterate hl]

theorem isLevelOf_of_root_eq {cs ds : List Chunk} (hd : depth cs.length ≤ depth ds.length)
    (h : root cs = root ds) : IsLevelOf cs ds ∨ Collision (rootPairs cs) (rootPairs ds) := by
  obtain ⟨j, hj⟩ := Nat.exists_eq_add_of_le hd
  have hc : (fill cs).length = 1 <<< depth cs.length := length_fill cs
  have hl : (fill ds).length = 1 <<< (depth cs.length + j) := hj ▸ length_fill ds
  have hlj := length_level_iterate hl
  -- From the level of its width on, the higher tree is climbed as the other is from its leaves.
  have hclimb : climb (depth cs.length) (fill cs) =
      climb (depth cs.length) (level^[j] (fill ds)) := by
    rw [climb_eq_perfectRoot hc (Nat.le_refl _), climb_eq_perfectRoot hlj (Nat.le_refl _),
      perfectRoot_level_iterate hl, ← hj, ← root_eq_perfectRoot, ← root_eq_perfectRoot, h]
  refine (climb_inj hc hlj hclimb).imp (fun he => ⟨j, hj, he⟩) fun hx => ?_
  rw [rootPairs_eq, rootPairs_eq]
  exact hx.mono (climbPairs_subset (depth_le _) _)
    (climbPairs_level_iterate_subset hl (hj ▸ depth_le _))

/-- Levels of one tree, the leaves of the lower of the two trees being a level of the other. -/
def Levelled (cs ds : List Chunk) : Prop := IsLevelOf cs ds ∨ IsLevelOf ds cs

theorem Levelled.root_eq {cs ds : List Chunk} (h : Levelled cs ds) : root cs = root ds :=
  h.elim IsLevelOf.root_eq fun h => h.root_eq.symm

theorem levelled_of_root_eq {cs ds : List Chunk} (h : root cs = root ds) :
    Levelled cs ds ∨ Collision (rootPairs cs) (rootPairs ds) := by
  rcases Nat.le_total (depth cs.length) (depth ds.length) with hd | hd
  · exact (isLevelOf_of_root_eq hd h).imp Or.inl id
  · exact (isLevelOf_of_root_eq hd h.symm).imp Or.inr Collision.symm

end Merkle

namespace Payload
open Merkle (Collision Levelled)

theorem root_ofFields {fields : List (Option Payload)} {r : Root}
    (h : (ofFields fields).root = .ok r) :
    ∃ rs, (fields.filterMap id).mapM root = .ok rs ∧
      r.octets = Merkle.root (rs.map Block.octets) := by
  rw [ofFields, root_struct] at h
  obtain ⟨rs, hrs, rfl⟩ := map_eq_ok_iff.1 h
  exact ⟨rs, hrs, rfl⟩

theorem rootPairs_subset_pairs {fields : List Payload} {rs : List Root}
    (h : fields.mapM root = .ok rs) :
    Merkle.rootPairs (rs.map Block.octets) ⊆ (struct fields).pairs := by
  rw [mapM_root] at h
  obtain ⟨ns, hns, rfl⟩ := map_eq_ok_iff.1 h
  rw [pairs, ownPairs_of_ok hns, Node.containerPairs, List.map_map]
  exact List.subset_append_right _ _

/-- The root of a struct tells the roots of the fields that are written, and not which fields they
are. It is one root for two structs as soon as the roots of their fields are levels of one tree,
and, short of a collision, only then: with equally many fields written, these have the same roots in
the same order. -/
theorem ofFields_root_eq {fields fields' : List (Option Payload)} {r r' : Root}
    (h : (ofFields fields).root = .ok r) (h' : (ofFields fields').root = .ok r') :
    ∃ rs rs' : List Root,
      (fields.filterMap id).mapM root = .ok rs ∧ (fields'.filterMap id).mapM root = .ok rs' ∧
      (Levelled (rs.map Block.octets) (rs'.map Block.octets) → r = r') ∧
      (r = r' →
        (Levelled (rs.map Block.octets) (rs'.map Block.octets) ∧
          (rs.length = rs'.length → rs = rs')) ∨
        Collision (ofFields fields).pairs (ofFields fields').pairs) := by
  obtain ⟨rs, hrs, hr⟩ := root_ofFields h
  obtain ⟨rs', hrs', hr'⟩ := root_ofFields h'
  have hs := rootPairs_subset_pairs hrs
  have hs' := rootPairs_subset_pairs hrs'
  refine ⟨rs, rs', hrs, hrs', fun hl => ?_, ?_⟩
  · exact congrArg Block.mk ((hr.trans hl.root_eq).trans hr'.symm)
  · rintro rfl
    have he := hr.symm.trans hr'
    rcases Merkle.levelled_of_root_eq he with hl | hx
    · by_cases hn : rs.length = rs'.length
      · have hm : (rs.map Block.octets).length = (rs'.map Block.octets).length := by
          rw [List.length_map, List.length_map, hn]
        refine (Merkle.root_inj hm he).imp (fun hc => ⟨hl, fun _ => ?_⟩) fun hx => hx.mono hs hs'
        exact List.map_injective_iff.2 (fun a b hab => congrArg Block.mk hab) hc
      · exact Or.inl ⟨hl, fun hc => absurd hc hn⟩
    · exact Or.inr (hx.mono hs hs')

/-- Of three fields one is left out, and the last of those written is another one. -/
theorem written_told_apart :
    ∃ r r', (ofFields [some (byte 1), none, some (byte 2)]).root = .ok r ∧
      (ofFields [some (byte 1), some (byte 3), none]).root = .ok r' ∧
      (r = r' → Collision (ofFields [some (byte 1), none, some (byte 2)]).pairs
        (ofFields [some (byte 1), some (byte 3), none]).pairs) := by
  obtain ⟨rs, rs', hrs, hrs', -, h⟩ := @ofFields_root_eq [some (byte 1), none, some (byte 2)]
    [some (byte 1), some (byte 3), none] _ _ rfl rfl
  cases hrs
  cases hrs'
  refine ⟨_, _, rfl, rfl, fun he => (h he).resolve_left fun ⟨_, hl⟩ => ?_⟩
  exact absurd (hl rfl) (by decide)

def FitsField (s : Shape) : Option Payload → Prop
  | none => True
  | some p => s.Fits p

/-- A value of each shape in turn, but for those that are left out. -/
def OfType (shapes : List Shape) (fields : List (Option Payload)) : Prop :=
  List.Forall₂ FitsField shapes fields

/-- Two values of one type leave out different fields and have one root, and there is no collision
in all that is hashed for them. -/
structure Confused (shapes : List Shape) (fields fields' : List (Option Payload)) : Prop where
  ofType : OfType shapes fields
  ofType' : OfType shapes fields'
  presence : fields.map Option.isSome ≠ fields'.map Option.isSome
  root : ∃ r, (ofFields fields).root = .ok r ∧ (ofFields fields').root = .ok r
  noCollision :
    let hashed := (ofFields fields).pairs ++ (ofFields fields').pairs
    ¬ Collision hashed hashed

theorem root_struct_singleton {p : Payload} {r : Root} (h : p.root = .ok r) :
    (struct [p]).root = .ok r := by
  rw [root_struct, List.mapM_cons, h]
  rfl

theorem pairs_struct_singleton {p : Payload} {n : Node} (h : p.node = .ok n) :
    (struct [p]).pairs = p.pairs := by
  have hns : nodes [p] = .ok [n] := nodes_cons_eq_ok_iff.2 ⟨n, [], h, rfl, rfl⟩
  rw [pairs, allPairs_cons_of_ok [] h, ownPairs_of_ok hns, allPairs, List.append_nil]
  exact List.append_nil _

/-- A value may be the one field or the other. -/
theorem confused_moved {s : Shape} {p : Payload} (hp : s.Fits p)
    (hc : ¬ Collision p.pairs p.pairs) :
    Confused [s, s] [none, some p] [some p, none] := by
  obtain ⟨n, hn, hr⟩ := Shape.root_of_fits hp
  refine ⟨.cons trivial (.cons hp .nil), .cons hp (.cons trivial .nil), nofun,
    ⟨_, root_struct_singleton hr, root_struct_singleton hr⟩, ?_⟩
  have hs : (struct [p]).pairs ++ (struct [p]).pairs ⊆ p.pairs := by
    rw [pairs_struct_singleton hn]
    exact List.append_subset.2 ⟨List.Subset.refl _, List.Subset.refl _⟩
  exact fun hx => hc (hx.mono hs hs)

/-- A single field may be zero or not there. -/
theorem confused_zero {s : Shape} {p : Payload} (hp : s.Fits p)
    (hr : p.root = .ok ⟨Merkle.zeroChunk⟩) (hc : ¬ Collision p.pairs p.pairs) :
    Confused [s] [none] [some p] := by
  obtain ⟨n, hn, -⟩ := Shape.root_of_fits hp
  refine ⟨.cons trivial .nil, .cons hp .nil, nofun, ⟨_, rfl, root_struct_singleton hr⟩, ?_⟩
  change ¬ Collision ([] ++ (struct [p]).pairs) ([] ++ (struct [p]).pairs)
  rw [pairs_struct_singleton hn]
  exact hc

/-- One block may be the hash of two others. -/
theorem confused_hashed {s : Shape} (hs : ∀ o : Octets 32, s.Fits (ofOctets o))
    (c : SigningContainer) :
    Confused [s, s] [some c.digest.payload, none] [some c.root.payload, some c.domain.payload] := by
  refine ⟨.cons (hs _) (.cons trivial .nil), .cons (hs _) (.cons (hs _) .nil), nofun,
    ⟨_, root_struct_singleton (root_ofOctets _), c.root_payload⟩, ?_⟩
  have hd : (struct [c.digest.payload]).pairs = [] :=
    (pairs_struct_singleton (node_ofOctets _)).trans (pairs_ofOctets _)
  change ¬ Collision ((struct [c.digest.payload]).pairs ++ c.payload.pairs)
    ((struct [c.digest.payload]).pairs ++ c.payload.pairs)
  rw [hd, c.pairs_payload]
  rintro ⟨x, hx, y, hy, hne, -⟩
  rw [List.mem_singleton.1 hx, List.mem_singleton.1 hy] at hne
  exact hne rfl

theorem fits_ofOctets {n : Nat} (o : Octets n) :
    Shape.Fits (.newtype (.tuple (.replicate n (.basic (.unsigned .one))))) (ofOctets o) := by
  have hb : ∀ p ∈ o.toList.map byte, Shape.Fits (.basic (.unsigned .one)) p :=
    List.forall_mem_map.2 fun b _ => .basic rfl
  have h := Shape.fitsAll_replicate hb
  rw [List.length_map, Vector.length_toList] at h
  exact .newtype (.tuple h)

/-- Numbers of one byte that moved or that were zero, and zero blocks that were hashed. -/
theorem leftOut_confused :
    let number : Shape := .basic (.unsigned .one)
    let block : Shape := .newtype (.tuple (.replicate 32 number))
    let zeros : SigningContainer := ⟨⟨Octets.zero 32⟩, ⟨Octets.zero 32⟩⟩
    Confused [number, number] [none, some (byte 5)] [some (byte 5), none] ∧
      Confused [number] [none] [some (byte 0)] ∧
      Confused [block, block] [some zeros.digest.payload, none]
        [some zeros.root.payload, some zeros.domain.payload] := by
  intro number block zeros
  have hc : ∀ b, ¬ Collision (byte b).pairs (byte b).pairs := by
    rintro b ⟨x, hx, -⟩
    cases hx
  exact ⟨confused_moved (.basic rfl) (hc 5), confused_zero (.basic rfl) rfl (hc 0),
    confused_hashed fits_ofOctets zeros⟩

end Payload

end Notary
