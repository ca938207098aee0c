import Notary.Proofs.HashedPairs

/-! Values within values. A context is what stands around a value, one frame for each constructor on
the way up to the whole. Of a value in it nothing counts but its node, and of a field of a struct
nothing but its root. -/

namespace Notary

theorem map_eq_ok_iff {ε α β : Type} {x : Except ε α} {f : α → β} {b : β} :
    x.map f = .ok b ↔ ∃ a, x = .ok a ∧ f a = b := by
  cases x <;> simp [Except.map]

theorem map_eq_error_iff {ε α β : Type} {x : Except ε α} {f : α → β} {e : ε} :
    x.map f = .error e ↔ x = .error e := by
  cases x <;> simp [Except.map]

namespace Payload

/-- A constructor with one of its parts missing. -/
inductive Frame
  | present
  | newtype
  | newtypeVariant
  | seq (announced : Bool) (before after : List Payload)
  | tuple (before after : List Payload)
  | tupleStruct (before after : List Payload)
  | tupleVariant (before after : List Payload)
  | struct (before after : List Payload)
  | structVariant (before after : List Payload)
  | key (before : List (Payload × Payload)) (value : Payload) (after : List (Payload × Payload))
  | value (before : List (Payload × Payload)) (key : Payload) (after : List (Payload × Payload))

namespace Frame

def fill : Frame → Payload → Payload
  | present, p => .present p
  | newtype, p => .newtype p
  | newtypeVariant, p => .newtypeVariant p
  | seq announced before after, p => .seq announced (before ++ p :: after)
  | tuple before after, p => .tuple (before ++ p :: after)
  | tupleStruct before after, p => .tupleStruct (before ++ p :: after)
  | tupleVariant before after, p => .tupleVariant (before ++ p :: after)
  | struct before after, p => .struct (before ++ p :: after)
  | structVariant before after, p => .structVariant (before ++ p :: after)
  | key before v after, p => .map (before ++ (p, v) :: after)
  | value before k after, p => .map (before ++ (k, p) :: after)

/-- What is missing is a field of a struct or of a tuple struct. -/
def IsContainer : Frame → Prop
  | tupleStruct _ _ | struct _ _ => True
  | _ => False

end Frame

/-- The innermost frame comes first. -/
def within (p : Payload) (context : List Frame) : Payload :=
  context.foldl (fun q frame => frame.fill q) p

theorem nodes_congr {p q : Payload} (h : p.node = q.node) (before after : List Payload) :
    nodes (before ++ p :: after) = nodes (before ++ q :: after) := by
  induction before with
  | nil => rw [List.nil_append, List.nil_append, nodes, nodes, h]
  | cons b before ih => rw [List.cons_append, List.cons_append, nodes, nodes, ih]

theorem node_fill_congr {p q : Payload} (h : p.node = q.node) (frame : Frame) :
    (frame.fill p).node = (frame.fill q).node := by
  cases frame with
  | newtype => rw [Frame.fill, Frame.fill, node, node, h]
  | seq announced before after => rw [Frame.fill, Frame.fill, node, node, nodes_congr h]
  | tuple before after => rw [Frame.fill, Frame.fill, node, node, nodes_congr h]
  | tupleStruct before after => rw [Frame.fill, Frame.fill, node, node, nodes_congr h]
  | struct before after => rw [Frame.fill, Frame.fill, node, node, nodes_congr h]
  | _ => rfl

/-- In any context, values with one node are as good as each other. -/
theorem node_within_congr {p q : Payload} (h : p.node = q.node) (context : List Frame) :
    (p.within context).node = (q.within context).node := by
  induction context generalizing p q with
  | nil => exact h
  | cons frame context ih => exact ih (node_fill_congr h frame)

theorem root_congr {p q : Payload} (h : p.node = q.node) : p.root = q.root := by
  rw [root, root, h]

theorem root_ofOctets (o : Octets 32) : (ofOctets o).root = .ok ⟨o⟩ := by
  rw [root, node_ofOctets]
  rfl

theorem mapM_root (ps : List Payload) :
    ps.mapM root = (nodes ps).map fun ns => ns.map fun n => ⟨n.chunk⟩ := by
  induction ps with
  | nil => rfl
  | cons p ps ih =>
    rw [List.mapM_cons, ih, root, nodes]
    cases p.node with
    | error e => rfl
    | ok n => cases nodes ps <;> rfl

/-- What a struct hands on is made of the roots of its fields. -/
theorem container_eq (ps : List Payload) :
    (nodes ps).map Node.container =
      (ps.mapM root).map fun rs => Node.composite (Merkle.root (rs.map Block.octets)) := by
  rw [mapM_root]
  cases nodes ps with
  | error e => rfl
  | ok ns =>
    have hc : (ns.map fun n => (⟨n.chunk⟩ : Root)).map Block.octets = ns.map Node.chunk := by
      rw [List.map_map]
      rfl
    exact congrArg (fun cs => Except.ok (Node.composite (Merkle.root cs))) hc.symm

theorem root_struct (fields : List Payload) :
    (struct fields).root =
      (fields.mapM root).map fun rs => ⟨Merkle.root (rs.map Block.octets)⟩ := by
  rw [root, node, container_eq]
  cases fields.mapM root <;> rfl

theorem node_fill_of_isContainer {p q : Payload} (h : p.root = q.root) {frame : Frame}
    (hf : frame.IsContainer) : (frame.fill p).node = (frame.fill q).node := by
  have hm : ∀ before after : List Payload,
      (before ++ p :: after).mapM root = (before ++ q :: after).mapM root := by
    intro before after
    rw [List.mapM_append, List.mapM_append, List.mapM_cons, List.mapM_cons, h]
  cases frame with
  | tupleStruct before after =>
    rw [Frame.fill, Frame.fill, node, node, container_eq, container_eq, hm]
  | struct before after =>
    rw [Frame.fill, Frame.fill, node, node, container_eq, container_eq, hm]
  | _ => cases hf

end Payload

end Notary
