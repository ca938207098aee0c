import Notary.Proofs.Context

/-! Values that are written in different ways and hashed alike. A string is the bytes of it, bytes
are a sequence of small integers, a name around a value counts for nothing, and a basic value is no
more than its bytes. One way of writing may take the place of the other wherever it stands, and what
is around it comes to the same root, or to the same error. -/

namespace Notary.Payload

/-- Two ways of writing one value. -/
inductive Respelled : Payload → Payload → Prop
  | text (s : String) : Respelled (.text s) (.bytes s.toUTF8.toList)
  | bytes (announced : Bool) (bs : List UInt8) :
      Respelled (.bytes bs) (.seq announced (bs.map byte))
  | announced (ps : List Payload) : Respelled (.seq true ps) (.seq false ps)
  | struct (fields : List Payload) : Respelled (.struct fields) (.tupleStruct fields)
  | newtype (p : Payload) : Respelled p (.newtype p)
  | char (c : Char) : Respelled (.basic (.char c)) (.basic (.unsigned .four c.val.toBitVec))
  | unitVariant (index : BitVec 32) :
      Respelled (.basic (.unitVariant index)) (.basic (.unsigned .four index))
  | bool (b : Bool) :
      Respelled (.basic (.bool b)) (.basic (.unsigned .one (if b then 1 else 0)))
  | signed (w : Width) (n : BitVec (8 * w.bytes)) :
      Respelled (.basic (.signed w n)) (.basic (.unsigned w n))

/-- Any number of parts are written in another way, at any depth. -/
inductive Equivalent : Payload → Payload → Prop
  | spelling {p q : Payload} (h : Respelled p q) : Equivalent p q
  | refl (p : Payload) : Equivalent p p
  | symm {p q : Payload} (h : Equivalent p q) : Equivalent q p
  | trans {p q r : Payload} (h : Equivalent p q) (h' : Equivalent q r) : Equivalent p r
  | fill {p q : Payload} (h : Equivalent p q) (frame : Frame) :
      Equivalent (frame.fill p) (frame.fill q)

theorem collectionRoot_singletons (bs : List UInt8) :
    Node.collectionRoot (bs.map fun b => .basic [b]) = Merkle.root (Merkle.pack bs) := by
  rw [Node.collectionRoot, packed?_singletons]

theorem node_tuple_byte (bs : List UInt8) :
    (tuple (bs.map byte)).node = .ok (.composite (Merkle.root (Merkle.pack bs))) := by
  rw [node, nodes_byte, Except.map, collectionRoot_singletons]

/-- Bytes that are collected one by one are packed like bytes that come together. -/
theorem node_seq_byte (announced : Bool) (bs : List UInt8) :
    (seq announced (bs.map byte)).node = .ok (.byteString bs) := by
  rw [node, nodes_byte, Except.map, Node.sequence, collectionRoot_singletons, List.length_map,
    Node.byteString]

theorem Respelled.node_eq {p q : Payload} (h : Respelled p q) : p.node = q.node := by
  cases h with
  | bytes announced bs => exact (node_seq_byte announced bs).symm
  | bool b => cases b <;> rfl
  | _ => rfl

theorem Equivalent.node_eq {p q : Payload} (h : Equivalent p q) : p.node = q.node := by
  induction h with
  | spelling h => exact h.node_eq
  | refl p => rfl
  | symm h ih => exact ih.symm
  | trans h h' ih ih' => exact ih.trans ih'
  | fill h frame ih => exact node_fill_congr ih frame

/-- Equivalent values have one root, or one error, and so has all that they may stand in. Bytes that
come together have the root of the tuple of them, with their number mixed in. -/
theorem root_respelled :
    (∀ p q, Equivalent p q → ∀ context, (p.within context).root = (q.within context).root) ∧
      ∀ bs : List UInt8, ∃ r, (tuple (bs.map byte)).root = .ok r ∧
        (bytes bs).root = .ok ⟨Merkle.mixInLength r.octets bs.length⟩ := by
  refine ⟨fun p q h context => root_congr (node_within_congr h.node_eq context), fun bs => ?_⟩
  refine ⟨⟨Merkle.root (Merkle.pack bs)⟩, ?_, rfl⟩
  rw [root, node_tuple_byte]
  rfl

/-- A flag beside a negative number, told by their bytes: in a list, and beside an option, which is
rejected as before. -/
theorem flags_respelled :
    let p := tuple [basic (.bool true), basic (.signed .one (-1))]
    let q := tuple [newtype (byte 1), byte 255]
    Equivalent p q ∧
      (q.within [.seq true [] []]).root =
        .ok ⟨Merkle.mixInLength (Octets.padded 32 [1, 255]) 1⟩ ∧
      (q.within [.struct [] [.absent]]).root = .error (.unsupported .option) := by
  intro p q
  have hflag : Equivalent (basic (.bool true)) (newtype (byte 1)) :=
    .trans (.spelling (.bool true)) (.spelling (.newtype (byte 1)))
  have hnumber : Equivalent (basic (.signed .one (-1))) (byte 255) :=
    .spelling (.signed .one (-1))
  have h : Equivalent p q :=
    .trans (hflag.fill (.tuple [] [basic (.signed .one (-1))]))
      (hnumber.fill (.tuple [newtype (byte 1)] []))
  have hr := root_respelled.1 p q h
  exact ⟨h, (hr [.seq true [] []]).symm.trans rfl, (hr [.struct [] [.absent]]).symm.trans rfl⟩

end Notary.Payload
