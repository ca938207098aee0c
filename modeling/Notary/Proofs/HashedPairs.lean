import Notary.Digest
import Notary.Proofs.MerkleBinding

/-! The pairs of chunks that are hashed for a payload's root, stage by stage as the root is
computed, and for the digest of a root in a domain: the container of the two hashes one pair. -/

namespace Notary

namespace Node

def collectionPairs (ns : List Node) : List (Chunk × Chunk) :=
  match packed? ns with
  | some bs => Merkle.rootPairs (Merkle.pack bs)
  | none => Merkle.rootPairs (ns.map chunk)

def sequencePairs (ns : List Node) : List (Chunk × Chunk) :=
  collectionPairs ns ++ [(collectionRoot ns, Merkle.lengthChunk ns.length)]

def byteStringPairs (bs : List UInt8) : List (Chunk × Chunk) :=
  Merkle.rootPairs (Merkle.pack bs) ++
    [(Merkle.root (Merkle.pack bs), Merkle.lengthChunk bs.length)]

def containerPairs (ns : List Node) : List (Chunk × Chunk) := Merkle.rootPairs (ns.map chunk)

end Node

namespace Payload

/-- What is hashed for a collection once all its elements have been. -/
def ownPairs (hashed : List Node → List (Chunk × Chunk)) (ps : List Payload) :
    List (Chunk × Chunk) :=
  match nodes ps with
  | .ok ns => hashed ns
  | .error _ => []

mutual

def pairs : Payload → List (Chunk × Chunk)
  | text s => Node.byteStringPairs s.toUTF8.toList
  | bytes bs => Node.byteStringPairs bs
  | newtype p => pairs p
  | seq _ ps => allPairs ps ++ ownPairs Node.sequencePairs ps
  | tuple ps => allPairs ps ++ ownPairs Node.collectionPairs ps
  | tupleStruct ps => allPairs ps ++ ownPairs Node.containerPairs ps
  | struct fields => allPairs fields ++ ownPairs Node.containerPairs fields
  | _ => []

/-- Nothing is hashed any more after a value without a root. -/
def allPairs : List Payload → List (Chunk × Chunk)
  | [] => []
  | p :: ps =>
    match node p with
    | .error _ => pairs p
    | .ok _ => pairs p ++ allPairs ps

end

theorem length_nodes {ps : List Payload} {ns : List Node} (h : nodes ps = .ok ns) :
    ns.length = ps.length := by
  induction ps generalizing ns with
  | nil =>
    cases h
    rfl
  | cons p ps ih =>
    obtain ⟨n, ms, -, hms, rfl⟩ := nodes_cons_eq_ok_iff.1 h
    rw [List.length_cons, List.length_cons, ih hms]

theorem ownPairs_of_ok {hashed : List Node → List (Chunk × Chunk)} {ps : List Payload}
    {ns : List Node} (h : nodes ps = .ok ns) : ownPairs hashed ps = hashed ns := by
  rw [ownPairs, h]

theorem allPairs_cons_of_ok {p : Payload} {n : Node} (ps : List Payload) (h : p.node = .ok n) :
    allPairs (p :: ps) = p.pairs ++ allPairs ps := by
  rw [allPairs, h]

theorem allPairs_byte (bs : List UInt8) : allPairs (bs.map byte) = [] := by
  induction bs with
  | nil => rfl
  | cons b bs ih =>
    rw [List.map_cons, allPairs_cons_of_ok _ rfl, ih]
    rfl

theorem pairs_ofOctets (o : Octets 32) : (ofOctets o).pairs = [] := by
  rw [ofOctets, pairs, pairs, allPairs_byte, ownPairs_of_ok (nodes_byte _), Node.collectionPairs,
    packed?_singletons]
  dsimp only
  rw [Merkle.pack_toList]
  rfl

end Payload

namespace SigningContainer
open Payload

theorem pairs_payload (c : SigningContainer) :
    c.payload.pairs = [(c.root.octets, c.domain.octets)] := by
  rw [payload, pairs, ownPairs_of_ok c.nodes_fields, Block.payload, Block.payload,
    allPairs_cons_of_ok _ (node_ofOctets _), allPairs_cons_of_ok _ (node_ofOctets _),
    pairs_ofOctets, pairs_ofOctets]
  rfl

end SigningContainer

/-- The pairs that are hashed for the digest of a payload in a domain. -/
def digestPairs (p : Payload) (domain : Domain) : List (Chunk × Chunk) :=
  match p.root with
  | .error _ => p.pairs
  | .ok root => p.pairs ++ (SigningContainer.mk root domain).payload.pairs

theorem digestPairs_of_ok {p : Payload} {root : Root} (domain : Domain) (h : p.root = .ok root) :
    digestPairs p domain = p.pairs ++ [(root.octets, domain.octets)] := by
  rw [digestPairs, h]
  exact congrArg (p.pairs ++ ·) (SigningContainer.pairs_payload _)

end Notary
