import Notary.Block
import Notary.Merkle
import Notary.Payload

/-! The structural root of a payload. A basic value is held back as bytes until it is known
whether the collection around it packs; every other value is a chunk at once. -/

namespace Notary

/-- Kinds of value that have no root. -/
inductive Rootless
  | single
  | double
  | option
  | newtypeVariant
  | tupleVariant
  | map
  | structVariant
deriving DecidableEq, Repr

def Rootless.label : Rootless → String
  | single => "f32"
  | double => "f64"
  | option => "option"
  | newtypeVariant => "newtype variant"
  | tupleVariant => "tuple variant"
  | map => "map"
  | structVariant => "struct variant"

inductive RootError
  | unsupported (kind : Rootless)
  | failed (message : String)
deriving DecidableEq, Repr

def RootError.message : RootError → String
  | unsupported kind => "Unsupported value kind: " ++ kind.label
  | failed message => message

/-- What a value contributes to the collection it stands in. -/
inductive Node
  | basic (bs : List UInt8)
  | composite (c : Chunk)
deriving DecidableEq, Repr

namespace Node

def chunk : Node → Chunk
  | basic bs => Octets.padded 32 bs
  | composite c => c

/-- The bytes of all nodes in a row, if every one of them is basic. -/
def packed? : List Node → Option (List UInt8)
  | [] => some []
  | basic bs :: ns => (packed? ns).map (bs ++ ·)
  | composite _ :: _ => none

def collectionRoot (ns : List Node) : Chunk :=
  match packed? ns with
  | some bs => Merkle.root (Merkle.pack bs)
  | none => Merkle.root (ns.map chunk)

def sequence (ns : List Node) : Node :=
  composite (Merkle.mixInLength (collectionRoot ns) ns.length)

def byteString (bs : List UInt8) : Node :=
  composite (Merkle.mixInLength (Merkle.root (Merkle.pack bs)) bs.length)

def container (ns : List Node) : Node := composite (Merkle.root (ns.map chunk))

end Node

namespace Payload

mutual

def node : Payload → Except RootError Node
  | basic b => .ok (.basic b.bytes)
  | float .single => .error (.unsupported .single)
  | float .double => .error (.unsupported .double)
  | text s => .ok (.byteString s.toUTF8.toList)
  | bytes bs => .ok (.byteString bs)
  | absent => .error (.unsupported .option)
  | present _ => .error (.unsupported .option)
  | unit => .ok (.composite Merkle.zeroChunk)
  | unitStruct => .ok (.composite Merkle.zeroChunk)
  | newtype p => node p
  | newtypeVariant _ => .error (.unsupported .newtypeVariant)
  | seq _ ps => (nodes ps).map .sequence
  | tuple ps => (nodes ps).map fun ns => .composite (Node.collectionRoot ns)
  | tupleStruct ps => (nodes ps).map .container
  | tupleVariant _ => .error (.unsupported .tupleVariant)
  | struct fields => (nodes fields).map .container
  | structVariant _ => .error (.unsupported .structVariant)
  | map _ => .error (.unsupported .map)
  | failing message => .error (.failed message)

/-- In order, up to the first value without a root. -/
def nodes : List Payload → Except RootError (List Node)
  | [] => .ok []
  | p :: ps =>
    match node p with
    | .error e => .error e
    | .ok n => (nodes ps).map (n :: ·)

end

def root (p : Payload) : Except RootError Root := p.node.map fun n => ⟨n.chunk⟩

theorem nodes_cons_eq_ok_iff {p : Payload} {ps : List Payload} {ns : List Node} :
    nodes (p :: ps) = .ok ns ↔ ∃ n ms, p.node = .ok n ∧ nodes ps = .ok ms ∧ ns = n :: ms := by
  rw [nodes]
  cases p.node with
  | error e => simp
  | ok n =>
    cases nodes ps with
    | error e => simp [Except.map]
    | ok ms => simp [Except.map, eq_comm]

theorem nodes_byte (bs : List UInt8) :
    nodes (bs.map byte) = .ok (bs.map fun b => .basic [b]) := by
  induction bs with
  | nil => rfl
  | cons b bs ih =>
    have hb : (byte b).node = .ok (.basic [b]) := by
      have hn : UInt8.ofNat b.toBitVec.toNat = b := UInt8.ofNat_toNat
      change Except.ok (Node.basic [UInt8.ofNat b.toBitVec.toNat]) = _
      rw [hn]
    exact nodes_cons_eq_ok_iff.2 ⟨_, _, hb, ih, rfl⟩

theorem packed?_singletons (bs : List UInt8) :
    Node.packed? (bs.map fun b => .basic [b]) = some bs := by
  induction bs with
  | nil => rfl
  | cons b bs ih => rw [List.map_cons, Node.packed?, ih, Option.map_some, List.singleton_append]

/-- Thirty-two bytes are their own root. -/
theorem node_ofOctets (o : Octets 32) : (ofOctets o).node = .ok (.composite o) := by
  rw [ofOctets, node, node, nodes_byte, Except.map, Node.collectionRoot, packed?_singletons]
  dsimp only
  rw [Merkle.pack_toList]
  rfl

end Payload

end Notary
