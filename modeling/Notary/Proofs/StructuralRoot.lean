import Notary.Proofs.HashedPairs
import Notary.Proofs.PerfectTree

/-! The root of a payload as a plain recursion over its parts. No part waits for the collection
around it here: whether a collection packs is read off its elements, and a root is that of the least
perfect tree. The computation, which holds basic values back until it has seen all their neighbours,
comes to the same root for every payload that has one. -/

namespace Notary.Payload
open Merkle (zeroChunk hashPair chunkOf chunks treeRoot countChunk)

/-- Built from kinds that have a root, all the way down. -/
inductive Supported : Payload → Prop
  | basic (b : Basic) : Supported (.basic b)
  | text (s : String) : Supported (.text s)
  | bytes (bs : List UInt8) : Supported (.bytes bs)
  | unit : Supported .unit
  | unitStruct : Supported .unitStruct
  | newtype {p : Payload} (h : Supported p) : Supported (.newtype p)
  | seq (announced : Bool) {ps : List Payload} (h : ∀ p ∈ ps, Supported p) :
      Supported (.seq announced ps)
  | tuple {ps : List Payload} (h : ∀ p ∈ ps, Supported p) : Supported (.tuple ps)
  | tupleStruct {ps : List Payload} (h : ∀ p ∈ ps, Supported p) : Supported (.tupleStruct ps)
  | struct {ps : List Payload} (h : ∀ p ∈ ps, Supported p) : Supported (.struct ps)

/-- The basic value that is left once the newtypes around it are taken off. -/
def basic? : Payload → Option Basic
  | basic b => some b
  | newtype p => basic? p
  | _ => none

/-- Elements that are all basic are packed; otherwise each stands for itself, by its root. -/
def collected (ps : List Payload) (roots : List Chunk) : Chunk :=
  match ps.mapM basic? with
  | some bs => treeRoot (chunks (bs.flatMap Basic.bytes))
  | none => treeRoot roots

/-- The number of elements, or of bytes, is a 64-bit number. -/
def counted (root : Chunk) (n : Nat) : Chunk := hashPair root (countChunk (UInt64.ofNat n))

mutual

/-- What stands here for kinds without a root means nothing. -/
def structuralRoot : Payload → Chunk
  | basic b => chunkOf b.bytes
  | text s => counted (treeRoot (chunks s.toUTF8.toList)) s.toUTF8.toList.length
  | bytes bs => counted (treeRoot (chunks bs)) bs.length
  | unit => zeroChunk
  | unitStruct => zeroChunk
  | newtype p => structuralRoot p
  | seq _ ps => counted (collected ps (structuralRoots ps)) ps.length
  | tuple ps => collected ps (structuralRoots ps)
  | tupleStruct ps => treeRoot (structuralRoots ps)
  | struct ps => treeRoot (structuralRoots ps)
  | _ => zeroChunk

def structuralRoots : List Payload → List Chunk
  | [] => []
  | p :: ps => structuralRoot p :: structuralRoots ps

end

theorem structuralRoots_eq_map (ps : List Payload) :
    structuralRoots ps = ps.map structuralRoot := by
  induction ps with
  | nil => rfl
  | cons p ps ih => rw [structuralRoots, ih, List.map_cons]

theorem structuralRoot_of_basic? {p : Payload} {b : Basic} (h : p.basic? = some b) :
    p.structuralRoot = chunkOf b.bytes := by
  fun_induction basic? p with
  | case1 c =>
    cases h
    rw [structuralRoot]
  | case2 p ih => rw [structuralRoot, ih h]
  | case3 p => cases h

/-- What a payload of supported kinds hands to the collection around it. -/
def contribution (p : Payload) : Node :=
  match p.basic? with
  | some b => .basic b.bytes
  | none => .composite p.structuralRoot

theorem chunk_contribution (p : Payload) : p.contribution.chunk = p.structuralRoot := by
  unfold contribution
  cases h : p.basic? with
  | some b =>
    rw [structuralRoot_of_basic? h]
    exact Merkle.padded_eq_chunkOf b.bytes
  | none => rfl

theorem map_chunk_contribution (ps : List Payload) :
    (ps.map contribution).map Node.chunk = structuralRoots ps := by
  rw [structuralRoots_eq_map, List.map_map]
  apply List.map_congr_left
  intro p _
  exact chunk_contribution p

/-- The nodes are packed if every payload is basic, and then into the bytes of them all. -/
theorem packed?_contribution (ps : List Payload) :
    Node.packed? (ps.map contribution) = (ps.mapM basic?).map fun bs => bs.flatMap Basic.bytes := by
  induction ps with
  | nil => rfl
  | cons p ps ih =>
    have hc : p.contribution = match p.basic? with
        | some b => .basic b.bytes
        | none => .composite p.structuralRoot := rfl
    rw [List.map_cons, List.mapM_cons, hc]
    cases p.basic? with
    | none => rfl
    | some b =>
      change (Node.packed? (ps.map contribution)).map (b.bytes ++ ·) = _
      rw [ih]
      cases ps.mapM basic? with
      | none => rfl
      | some bs => rfl

theorem collectionRoot_contribution (ps : List Payload) :
    Node.collectionRoot (ps.map contribution) = collected ps (structuralRoots ps) := by
  unfold Node.collectionRoot collected
  rw [packed?_contribution]
  cases ps.mapM basic? with
  | some bs =>
    change Merkle.root (Merkle.pack (bs.flatMap Basic.bytes)) = _
    rw [Merkle.root_eq_treeRoot, Merkle.pack_eq_chunks]
  | none =>
    change Merkle.root ((ps.map contribution).map Node.chunk) = _
    rw [Merkle.root_eq_treeRoot, map_chunk_contribution]

theorem sequence_contribution (ps : List Payload) :
    Node.sequence (ps.map contribution)
      = .composite (counted (collected ps (structuralRoots ps)) ps.length) := by
  rw [Node.sequence, collectionRoot_contribution, Merkle.mixInLength_eq, List.length_map, counted]

theorem container_contribution (ps : List Payload) :
    Node.container (ps.map contribution) = .composite (treeRoot (structuralRoots ps)) := by
  rw [Node.container, Merkle.root_eq_treeRoot, map_chunk_contribution]

theorem byteString_eq (bs : List UInt8) :
    Node.byteString bs = .composite (counted (treeRoot (chunks bs)) bs.length) := by
  rw [Node.byteString, Merkle.root_eq_treeRoot, Merkle.pack_eq_chunks, Merkle.mixInLength_eq,
    counted]

theorem nodes_eq_map {ps : List Payload} (h : ∀ p ∈ ps, p.node = .ok p.contribution) :
    nodes ps = .ok (ps.map contribution) := by
  induction ps with
  | nil => rfl
  | cons p ps ih =>
    obtain ⟨hp, hps⟩ := List.forall_mem_cons.1 h
    exact nodes_cons_eq_ok_iff.2 ⟨_, _, hp, ih hps, rfl⟩

/-- A value is held back as bytes exactly if it is basic; what it comes to otherwise is its root. -/
theorem node_eq_contribution {p : Payload} (h : p.Supported) : p.node = .ok p.contribution := by
  induction h with
  | basic b => rfl
  | text s =>
    rw [node, byteString_eq]
    rfl
  | bytes bs =>
    rw [node, byteString_eq]
    rfl
  | unit => rfl
  | unitStruct => rfl
  | newtype h ih =>
    rw [node, ih]
    rfl
  | seq announced h ih =>
    rw [node, nodes_eq_map ih, Except.map, sequence_contribution]
    rfl
  | tuple h ih =>
    rw [node, nodes_eq_map ih, Except.map, collectionRoot_contribution]
    rfl
  | tupleStruct h ih =>
    rw [node, nodes_eq_map ih, Except.map, container_contribution]
    rfl
  | struct h ih =>
    rw [node, nodes_eq_map ih, Except.map, container_contribution]
    rfl

/-- Every payload of supported kinds has a root, and it is the one that the recursion gives. -/
theorem root_eq_structuralRoot {p : Payload} (h : p.Supported) :
    p.root = .ok ⟨p.structuralRoot⟩ := by
  rw [Payload.root, node_eq_contribution h, Except.map, chunk_contribution]

/-- A flag beside a sequence that packs. -/
def flagged : Payload :=
  .tuple [.basic (.bool true),
    .seq true [.basic (.unsigned .two 1), .newtype (.basic (.unsigned .two 2))]]

theorem flagged_root :
    flagged.Supported ∧
      flagged.root =
        .ok ⟨hashPair (chunkOf [1]) (hashPair (chunkOf [1, 0, 2, 0]) (countChunk 2))⟩ := by
  have hs : flagged.Supported := by
    refine .tuple (List.forall_mem_cons.2 ⟨.basic _, List.forall_mem_cons.2 ⟨.seq true ?_, nofun⟩⟩)
    exact List.forall_mem_cons.2 ⟨.basic _, List.forall_mem_cons.2 ⟨.newtype (.basic _), nofun⟩⟩
  have hone : ∀ c, treeRoot [c] = c := fun c => (Merkle.root_eq_treeRoot [c]).symm
  have htwo : ∀ c d, treeRoot [c, d] = hashPair c d :=
    fun c d => (Merkle.root_eq_treeRoot [c, d]).symm
  have hseq : structuralRoot (.seq true [.basic (.unsigned .two 1),
      .newtype (.basic (.unsigned .two 2))])
        = hashPair (chunkOf [1, 0, 2, 0]) (countChunk 2) :=
    congrArg (hashPair · _) (hone _)
  have hroot : flagged.structuralRoot =
      hashPair (chunkOf [1]) (hashPair (chunkOf [1, 0, 2, 0]) (countChunk 2)) := by
    rw [← hseq]
    exact htwo (chunkOf [1]) _
  rw [root_eq_structuralRoot hs, hroot]
  exact ⟨hs, rfl⟩

end Notary.Payload
