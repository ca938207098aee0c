import Notary.Payload.Root

/-! Which payloads have a root, and which error the others come to. A payload is walked from left to
right, each value before its parts; the first value that offends by itself decides the error,
however deep it lies, and if none does there is a root. -/

namespace Notary.Payload

mutual

/-- The content of an option, of a map and of a variant is not looked at. -/
def walk : Payload → List Payload
  | newtype p => .newtype p :: walk p
  | seq announced ps => .seq announced ps :: walks ps
  | tuple ps => .tuple ps :: walks ps
  | tupleStruct ps => .tupleStruct ps :: walks ps
  | struct fields => .struct fields :: walks fields
  | p => [p]

def walks : List Payload → List Payload
  | [] => []
  | p :: ps => walk p ++ walks ps

end

/-- What a value is called whose kind has no root. -/
def rootlessName? : Payload → Option String
  | float .single => some "f32"
  | float .double => some "f64"
  | absent | present _ => some "option"
  | newtypeVariant _ => some "newtype variant"
  | tupleVariant _ => some "tuple variant"
  | structVariant _ => some "struct variant"
  | map _ => some "map"
  | _ => none

/-- A value offends by its kind, which the error names, or because it cannot be written, of which
the error gives the message. -/
inductive Offends : Payload → RootError → Prop
  | kind {p : Payload} {k : Rootless} (h : p.rootlessName? = some k.label) :
      Offends p (.unsupported k)
  | failing (message : String) : Offends (.failing message) (.failed message)

/-- The first value of the walk that offends does so with this error. -/
def FirstOffends (p : Payload) (e : RootError) : Prop :=
  ∃ before q after, p.walk = before ++ q :: after ∧ (∀ b ∈ before, ∀ e', ¬ b.Offends e') ∧
    q.Offends e

def offence? : Payload → Option RootError
  | float .single => some (.unsupported .single)
  | float .double => some (.unsupported .double)
  | absent | present _ => some (.unsupported .option)
  | newtypeVariant _ => some (.unsupported .newtypeVariant)
  | tupleVariant _ => some (.unsupported .tupleVariant)
  | structVariant _ => some (.unsupported .structVariant)
  | map _ => some (.unsupported .map)
  | failing message => some (.failed message)
  | _ => none

theorem rootlessName?_eq_iff (p : Payload) (k : Rootless) :
    p.rootlessName? = some k.label ↔ p.offence? = some (.unsupported k) := by
  cases p with
  | float w => cases w <;> cases k <;> simp [rootlessName?, offence?, Rootless.label]
  | _ => cases k <;> simp [rootlessName?, offence?, Rootless.label]

theorem offends_iff (p : Payload) (e : RootError) : p.Offends e ↔ p.offence? = some e := by
  constructor
  · rintro (h | message)
    · exact (rootlessName?_eq_iff p _).1 h
    · rfl
  · intro h
    cases e with
    | unsupported k => exact .kind ((rootlessName?_eq_iff p k).2 h)
    | failed message =>
      cases p with
      | failing m =>
        cases h
        exact .failing message
      | float w => cases w <;> cases h
      | _ => cases h

def fault? {α : Type} : Except RootError α → Option RootError
  | .ok _ => none
  | .error e => some e

theorem fault?_map {α β : Type} (f : α → β) (x : Except RootError α) :
    fault? (x.map f) = fault? x := by
  cases x <;> rfl

theorem fault?_eq_some_iff {α : Type} {x : Except RootError α} {e : RootError} :
    fault? x = some e ↔ x = .error e := by
  cases x <;> simp [fault?]

theorem fault?_eq_none_iff {α : Type} {x : Except RootError α} :
    fault? x = none ↔ ∃ a, x = .ok a := by
  cases x <;> simp [fault?]

theorem fault?_nodes_cons (p : Payload) (ps : List Payload) :
    fault? (nodes (p :: ps)) = (fault? p.node).or (fault? (nodes ps)) := by
  rw [nodes]
  cases p.node with
  | error e => rfl
  | ok n => exact fault?_map _ _

mutual

/-- The values on the way down do not offend, and what stands before an offence has a node. -/
theorem fault?_node : ∀ p : Payload, fault? p.node = p.walk.findSome? offence?
  | newtype p => by
    rw [node, walk]
    exact fault?_node p
  | seq announced ps => by
    rw [node, walk, fault?_map]
    exact fault?_nodes ps
  | tuple ps => by
    rw [node, walk, fault?_map]
    exact fault?_nodes ps
  | tupleStruct ps => by
    rw [node, walk, fault?_map]
    exact fault?_nodes ps
  | struct fields => by
    rw [node, walk, fault?_map]
    exact fault?_nodes fields
  | float .single => rfl
  | float .double => rfl
  | basic _ | text _ | bytes _ | absent | present _ | unit | unitStruct | newtypeVariant _
  | tupleVariant _ | structVariant _ | map _ | failing _ => rfl

theorem fault?_nodes : ∀ ps : List Payload, fault? (nodes ps) = (walks ps).findSome? offence?
  | [] => rfl
  | p :: ps => by
    rw [fault?_nodes_cons, walks, List.findSome?_append, fault?_node p, fault?_nodes ps]

end

theorem not_offends_iff (p : Payload) : (∀ e, ¬ p.Offends e) ↔ p.offence? = none := by
  simp only [offends_iff, Option.eq_none_iff_forall_ne_some, ne_eq]

theorem findSome?_walk_iff (p : Payload) (e : RootError) :
    p.walk.findSome? offence? = some e ↔ p.FirstOffends e := by
  rw [List.findSome?_eq_some_iff]
  constructor
  · rintro ⟨before, q, after, hw, hq, hb⟩
    exact ⟨before, q, after, hw, fun b hm => (not_offends_iff b).2 (hb b hm),
      (offends_iff q e).2 hq⟩
  · rintro ⟨before, q, after, hw, hb, hq⟩
    exact ⟨before, q, after, hw, (offends_iff q e).1 hq,
      fun b hm => (not_offends_iff b).1 (hb b hm)⟩

/-- A payload has a root exactly if nothing that is met in it offends; otherwise it comes to the
error of the first value that does. -/
theorem root_firstOffends (p : Payload) :
    ((∃ r, p.root = .ok r) ↔ ∀ q ∈ p.walk, ∀ e, ¬ q.Offends e) ∧
      ∀ e, p.root = .error e ↔ p.FirstOffends e := by
  have hf : fault? p.root = p.walk.findSome? offence? := (fault?_map _ _).trans (fault?_node p)
  refine ⟨?_, fun e => ?_⟩
  · rw [← fault?_eq_none_iff, hf, List.findSome?_eq_none_iff]
    simp only [not_offends_iff]
  · rw [← fault?_eq_some_iff, hf, findSome?_walk_iff]

example : (seq true [unit, newtype (present (failing "inner")), failing "outer"]).root =
    .error (.unsupported .option) := rfl

end Notary.Payload
