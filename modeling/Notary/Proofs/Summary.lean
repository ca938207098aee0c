import Notary.Proofs.Context
import Notary.Proofs.StructuralRoot
import Notary.Signing

/-! Roots in place of values. The payload of a root hands its own bytes on, as one chunk that never
packs, and so does every value that is not basic. A basic value does pack, and only a struct, which
takes the roots of its fields, makes no difference between it and its root. -/

namespace Notary

namespace Payload
open Process (signPayload)

theorem node_of_root {p : Payload} {r : Root} (h : p.root = .ok r) :
    ∃ n, p.node = .ok n ∧ n.chunk = r.octets := by
  obtain ⟨n, hn, rfl⟩ := map_eq_ok_iff.1 h
  exact ⟨n, hn, rfl⟩

theorem composite_of_map {ps : List Payload} {f : List Node → Chunk} {n : Node}
    (h : ((nodes ps).map fun ns => .composite (f ns)) = .ok n) : ∃ c, n = .composite c := by
  obtain ⟨ns, -, rfl⟩ := map_eq_ok_iff.1 h
  exact ⟨_, rfl⟩

/-- Only basic values are held back to be packed. -/
theorem composite_of_basic?_eq_none {p : Payload} (hb : p.basic? = none) {n : Node}
    (hn : p.node = .ok n) : ∃ c, n = .composite c := by
  fun_induction basic? p with
  | case1 b => cases hb
  | case2 p ih => exact ih hb hn
  | case3 p hbasic hnewtype =>
    cases p with
    | basic b => exact absurd rfl (hbasic b)
    | newtype q => exact absurd rfl (hnewtype q)
    | text s | bytes s | unit | unitStruct =>
      cases hn
      exact ⟨_, rfl⟩
    | seq announced ps => exact composite_of_map hn
    | tuple ps | tupleStruct ps | struct ps => exact composite_of_map hn
    | float w => cases w <;> cases hn
    | _ => cases hn

theorem node_summary {p : Payload} {r : Root} (hb : p.basic? = none) (h : p.root = .ok r) :
    r.payload.node = p.node := by
  obtain ⟨n, hn, hc⟩ := node_of_root h
  obtain ⟨c, rfl⟩ := composite_of_basic?_eq_none hb hn
  rw [hn, Block.payload, node_ofOctets, ← hc]
  rfl

/-- Wherever a value that has a root stands, its root can stand in its place, as long as the value
does not pack or stands right in a struct; and to sign a payload is to sign its root. -/
theorem root_summarized (r : Root) :
    r.payload.root = .ok r ∧ ∀ p : Payload, p.root = .ok r →
      (∀ context : List Frame,
        (p.basic? = none ∨ ∃ frame ∈ context.head?, frame.IsContainer) →
        (r.payload.within context).root = (p.within context).root) ∧
      ∀ (account : String) (c : Config) (domain : Domain),
        signPayload account c r.payload domain = signPayload account c p domain := by
  have hr : r.payload.root = .ok r := root_ofOctets r.octets
  refine ⟨hr, fun p h => ⟨fun context hp => root_congr ?_, fun account c domain => ?_⟩⟩
  · rcases hp with hb | ⟨frame, hhead, hf⟩
    · exact node_within_congr (node_summary hb h) context
    · obtain ⟨rest, rfl⟩ : ∃ rest, context = frame :: rest := List.head?_eq_some_iff.1 hhead
      exact node_within_congr (node_fill_of_isContainer (hr.trans h.symm) hf) rest
  · rw [signPayload, signPayload, h, hr]

/-- A list of numbers gives way to its root beside a number in a list. A number gives way to its own
in a struct, and the option that stands further on is rejected all the same. -/
theorem numbers_summarized :
    let list : Payload := .seq true [byte 7]
    let root : Root := ⟨Merkle.mixInLength (Octets.padded 32 [7]) 1⟩
    let numeral : Root := ⟨Octets.padded 32 [5]⟩
    (Payload.seq true [byte 1, root.payload]).root = (Payload.seq true [byte 1, list]).root ∧
      (Payload.tuple [.struct [numeral.payload], .absent]).root =
        .error (.unsupported .option) := by
  intro list root numeral
  have hl := (root_summarized root).2 list rfl
  have hn := (root_summarized numeral).2 (byte 5) rfl
  have he := hn.1 [.struct [] [], .tuple [] [.absent]] (Or.inr ⟨_, rfl, trivial⟩)
  exact ⟨hl.1 [.seq true [byte 1] []] (Or.inl rfl), he.trans rfl⟩

end Payload

end Notary
