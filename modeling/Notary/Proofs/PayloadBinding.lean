import Notary.Proofs.HashedPairs

/-! The digest that is signed binds the payload and the domain. Payloads of one shape are written
alike, so that equal roots lead back, through the lengths and the chunks, to equal payloads, unless
a collision of the hash is met on the way. -/

namespace Notary

/-- What all values of one type have in common: the elements of a sequence are of one shape, a
tuple or a struct has a fixed list of them. -/
inductive Shape
  | basic (k : Basic.Kind)
  | text
  | bytes
  | unit
  | unitStruct
  | newtype (s : Shape)
  | seq (announced : Bool) (s : Shape)
  | tuple (ss : List Shape)
  | tupleStruct (ss : List Shape)
  | struct (ss : List Shape)

namespace Shape

/-- Induction in which the shapes of a list are told apart by membership. -/
@[elab_as_elim, induction_eliminator]
theorem induction {motive : Shape → Prop} (basic : ∀ k, motive (basic k)) (text : motive text)
    (bytes : motive bytes) (unit : motive unit) (unitStruct : motive unitStruct)
    (newtype : ∀ s, motive s → motive (newtype s)) (seq : ∀ a s, motive s → motive (seq a s))
    (tuple : ∀ ss, (∀ s ∈ ss, motive s) → motive (tuple ss))
    (tupleStruct : ∀ ss, (∀ s ∈ ss, motive s) → motive (tupleStruct ss))
    (struct : ∀ ss, (∀ s ∈ ss, motive s) → motive (struct ss)) (s : Shape) : motive s :=
  @Shape.rec motive (fun ss => ∀ s ∈ ss, motive s) basic text bytes unit unitStruct newtype seq
    tuple tupleStruct struct nofun (fun _ _ h hs => List.forall_mem_cons.2 ⟨h, hs⟩) s

mutual

/-- Every length that is mixed in has to fit in eight bytes. -/
inductive Fits : Shape → Payload → Prop
  | basic {k : Basic.Kind} {b : Basic} (hk : b.kind = k) : Fits (.basic k) (.basic b)
  | text {t : String} (hl : t.toUTF8.toList.length < UInt64.size) : Fits .text (.text t)
  | bytes {bs : List UInt8} (hl : bs.length < UInt64.size) : Fits .bytes (.bytes bs)
  | unit : Fits .unit .unit
  | unitStruct : Fits .unitStruct .unitStruct
  | newtype {s : Shape} {p : Payload} (h : Fits s p) : Fits (.newtype s) (.newtype p)
  | seq {a : Bool} {s : Shape} {ps : List Payload} (hl : ps.length < UInt64.size)
      (h : ∀ p ∈ ps, Fits s p) : Fits (.seq a s) (.seq a ps)
  | tuple {ss : List Shape} {ps : List Payload} (h : FitsAll ss ps) : Fits (.tuple ss) (.tuple ps)
  | tupleStruct {ss : List Shape} {ps : List Payload} (h : FitsAll ss ps) :
      Fits (.tupleStruct ss) (.tupleStruct ps)
  | struct {ss : List Shape} {ps : List Payload} (h : FitsAll ss ps) :
      Fits (.struct ss) (.struct ps)

inductive FitsAll : List Shape → List Payload → Prop
  | nil : FitsAll [] []
  | cons {s : Shape} {ss : List Shape} {p : Payload} {ps : List Payload} (h : Fits s p)
      (hs : FitsAll ss ps) : FitsAll (s :: ss) (p :: ps)

end

/-- How many bytes a value of this shape is packed into, if it is packed at all. -/
def width : Shape → Option Nat
  | basic k => some k.width
  | newtype s => s.width
  | _ => none

theorem FitsAll.length_eq {ss : List Shape} {ps : List Payload} (h : FitsAll ss ps) :
    ps.length = ss.length := by
  induction ss generalizing ps with
  | nil =>
    cases h
    rfl
  | cons s ss ih =>
    cases h with
    | cons h hs => rw [List.length_cons, List.length_cons, ih hs]

/-- A sequence is, to its elements, a tuple of one shape over and over. -/
theorem fitsAll_replicate {s : Shape} {ps : List Payload} (h : ∀ p ∈ ps, s.Fits p) :
    FitsAll (.replicate ps.length s) ps := by
  induction ps with
  | nil => exact .nil
  | cons p ps ih =>
    obtain ⟨hp, hps⟩ := List.forall_mem_cons.1 h
    exact .cons hp (ih hps)

end Shape

namespace Node
open Merkle (Collision)

def width : Node → Option Nat
  | basic bs => some bs.length
  | composite _ => none

/-- Nodes of the same widths are packed alike. -/
theorem packed?_of_width {ns ns' : List Node} (hw : ns.map width = ns'.map width)
    {bs : List UInt8} (h : packed? ns = some bs) :
    ∃ bs', packed? ns' = some bs' ∧ bs.length = bs'.length ∧ (bs = bs' → ns = ns') := by
  induction ns generalizing ns' bs with
  | nil =>
    rw [List.map_nil] at hw
    rw [List.map_eq_nil_iff.1 hw.symm]
    exact ⟨bs, h, rfl, fun _ => rfl⟩
  | cons n ns ih =>
    cases ns' with
    | nil => cases hw
    | cons n' ns' =>
      obtain ⟨hn, hns⟩ := List.cons.inj hw
      cases n with
      | composite c => cases h
      | basic as =>
        cases n' with
        | composite c => cases hn
        | basic as' =>
          have hl : as.length = as'.length := Option.some.inj hn
          obtain ⟨rest, hr, rfl⟩ := Option.map_eq_some_iff.1 h
          obtain ⟨rest', hr', hlr, he⟩ := ih hns hr
          refine ⟨as' ++ rest', ?_, ?_, ?_⟩
          · rw [packed?, hr', Option.map_some]
          · rw [List.length_append, List.length_append, hl, hlr]
          · intro happ
            obtain ⟨h₁, h₂⟩ := List.append_inj happ hl
            rw [h₁, he h₂]

theorem collectionRoot_inj {ns ns' : List Node} (hw : ns.map width = ns'.map width)
    (h : collectionRoot ns = collectionRoot ns') :
    ns.map chunk = ns'.map chunk ∨ Collision (collectionPairs ns) (collectionPairs ns') := by
  have hl : (ns.map chunk).length = (ns'.map chunk).length := by
    have hlw := congrArg List.length hw
    rw [List.length_map, List.length_map] at hlw ⊢
    exact hlw
  unfold collectionRoot at h
  unfold collectionPairs
  cases hp : packed? ns with
  | some bs =>
    obtain ⟨bs', hp', hlb, he⟩ := packed?_of_width hw hp
    rw [hp, hp'] at h
    rw [hp']
    rcases Merkle.root_inj (Merkle.length_pack hlb) h with hc | hc
    · rw [he (Merkle.pack_inj hlb hc)]
      exact Or.inl rfl
    · exact Or.inr hc
  | none =>
    cases hp' : packed? ns' with
    | some bs' =>
      obtain ⟨bs, hb, -⟩ := packed?_of_width hw.symm hp'
      rw [hp] at hb
      cases hb
    | none =>
      rw [hp, hp'] at h
      exact Merkle.root_inj hl h

theorem sequence_inj {ns ns' : List Node} (hl : ns.length < UInt64.size)
    (hl' : ns'.length < UInt64.size)
    (hw : ns.length = ns'.length → ns.map width = ns'.map width)
    (h : (sequence ns).chunk = (sequence ns').chunk) :
    ns.map chunk = ns'.map chunk ∨ Collision (sequencePairs ns) (sequencePairs ns') := by
  -- The lengths come first: only then are the nodes known to be packed alike.
  rcases Merkle.mixInLength_inj hl hl' h with ⟨hr, hn⟩ | hc
  · refine (collectionRoot_inj (hw hn) hr).imp id fun hc => ?_
    exact hc.append _ _
  · exact Or.inr (hc.prepend _ _)

theorem byteString_inj {bs bs' : List UInt8} (hl : bs.length < UInt64.size)
    (hl' : bs'.length < UInt64.size) (h : (byteString bs).chunk = (byteString bs').chunk) :
    bs = bs' ∨ Collision (byteStringPairs bs) (byteStringPairs bs') := by
  rcases Merkle.mixInLength_inj hl hl' h with ⟨hr, hn⟩ | hc
  · rcases Merkle.root_inj (Merkle.length_pack hn) hr with he | hc
    · exact Or.inl (Merkle.pack_inj hn he)
    · exact Or.inr (hc.append _ _)
  · exact Or.inr (hc.prepend _ _)

theorem container_inj {ns ns' : List Node} (hl : ns.length = ns'.length)
    (h : (container ns).chunk = (container ns').chunk) :
    ns.map chunk = ns'.map chunk ∨ Collision (containerPairs ns) (containerPairs ns') := by
  apply Merkle.root_inj _ h
  rw [List.length_map, List.length_map, hl]

end Node

namespace Shape
open Payload
open Merkle (Collision)

/-- Every payload of the shape has a node, packed or not as the shape says. -/
def Rooted (s : Shape) : Prop :=
  ∀ p, s.Fits p → ∃ n, p.node = .ok n ∧ n.width = s.width

theorem nodes_of_fitsAll {ss : List Shape} (hs : ∀ s ∈ ss, s.Rooted) {ps : List Payload}
    (h : FitsAll ss ps) : ∃ ns, nodes ps = .ok ns ∧ ns.map Node.width = ss.map width := by
  induction ss generalizing ps with
  | nil =>
    cases h
    exact ⟨[], rfl, rfl⟩
  | cons s ss ih =>
    obtain ⟨hr, hrs⟩ := List.forall_mem_cons.1 hs
    cases h with
    | @cons _ _ p ps hp hps =>
      obtain ⟨n, hn, hw⟩ := hr p hp
      obtain ⟨ns, hns, hws⟩ := ih hrs hps
      refine ⟨n :: ns, nodes_cons_eq_ok_iff.2 ⟨n, ns, hn, hns, rfl⟩, ?_⟩
      rw [List.map_cons, List.map_cons, hw, hws]

theorem nodes_of_fits {s : Shape} (hs : s.Rooted) {ps : List Payload} (h : ∀ p ∈ ps, s.Fits p) :
    ∃ ns, nodes ps = .ok ns ∧ ns.map Node.width = .replicate ps.length s.width := by
  have hr : ∀ t ∈ List.replicate ps.length s, t.Rooted := by
    intro t ht
    rw [List.eq_of_mem_replicate ht]
    exact hs
  obtain ⟨ns, hns, hw⟩ := nodes_of_fitsAll hr (fitsAll_replicate h)
  exact ⟨ns, hns, hw.trans List.map_replicate⟩

theorem rooted (s : Shape) : s.Rooted := by
  induction s with
  | basic k =>
    intro p hp
    cases hp with
    | basic hk => exact ⟨_, rfl, congrArg some (hk ▸ Basic.length_bytes _)⟩
  | text =>
    intro p hp
    cases hp with
    | text hl => exact ⟨_, rfl, rfl⟩
  | bytes =>
    intro p hp
    cases hp with
    | bytes hl => exact ⟨_, rfl, rfl⟩
  | unit =>
    intro p hp
    cases hp with
    | unit => exact ⟨_, rfl, rfl⟩
  | unitStruct =>
    intro p hp
    cases hp with
    | unitStruct => exact ⟨_, rfl, rfl⟩
  | newtype s ih =>
    intro p hp
    cases hp with
    | newtype h =>
      obtain ⟨n, hn, hw⟩ := ih _ h
      exact ⟨n, hn, hw⟩
  | seq a s ih =>
    intro p hp
    cases hp with
    | seq hl h =>
      obtain ⟨ns, hns, -⟩ := nodes_of_fits ih h
      exact ⟨.sequence ns, congrArg (Except.map Node.sequence) hns, rfl⟩
  | tuple ss ih =>
    intro p hp
    cases hp with
    | tuple h =>
      obtain ⟨ns, hns, -⟩ := nodes_of_fitsAll ih h
      exact ⟨_, congrArg (Except.map _) hns, rfl⟩
  | tupleStruct ss ih =>
    intro p hp
    cases hp with
    | tupleStruct h =>
      obtain ⟨ns, hns, -⟩ := nodes_of_fitsAll ih h
      exact ⟨.container ns, congrArg (Except.map Node.container) hns, rfl⟩
  | struct ss ih =>
    intro p hp
    cases hp with
    | struct h =>
      obtain ⟨ns, hns, -⟩ := nodes_of_fitsAll ih h
      exact ⟨.container ns, congrArg (Except.map Node.container) hns, rfl⟩

/-- Payloads of the shape with equal chunks are equal, or a collision stands among what was hashed
for them. -/
def Binds (s : Shape) : Prop :=
  ∀ p p' n n', s.Fits p → s.Fits p' → p.node = .ok n → p'.node = .ok n' → n.chunk = n'.chunk →
    p = p' ∨ Collision p.pairs p'.pairs

theorem binds_all {ss : List Shape} (hs : ∀ s ∈ ss, s.Binds) {ps ps' : List Payload}
    {ns ns' : List Node} (h : FitsAll ss ps) (h' : FitsAll ss ps') (hn : nodes ps = .ok ns)
    (hn' : nodes ps' = .ok ns') (hc : ns.map Node.chunk = ns'.map Node.chunk) :
    ps = ps' ∨ Collision (allPairs ps) (allPairs ps') := by
  induction ss generalizing ps ps' ns ns' with
  | nil =>
    cases h
    cases h'
    exact Or.inl rfl
  | cons s ss ih =>
    obtain ⟨hb, hbs⟩ := List.forall_mem_cons.1 hs
    cases h with
    | cons hp hps =>
      cases h' with
      | cons hp' hps' =>
        obtain ⟨n, ms, hm, hms, rfl⟩ := nodes_cons_eq_ok_iff.1 hn
        obtain ⟨n', ms', hm', hms', rfl⟩ := nodes_cons_eq_ok_iff.1 hn'
        obtain ⟨h₁, h₂⟩ := List.cons.inj hc
        rw [allPairs_cons_of_ok _ hm, allPairs_cons_of_ok _ hm']
        rcases hb _ _ _ _ hp hp' hm hm' h₁ with rfl | hx
        · rcases ih hbs hps hps' hms hms' h₂ with rfl | hx
          · exact Or.inl rfl
          · exact Or.inr (hx.prepend _ _)
        · exact Or.inr (hx.append _ _)

/-- What holds of the elements holds of a collection that binds the chunks of its elements. -/
theorem binds_of_own {hashed : List Node → List (Chunk × Chunk)} {ps ps' : List Payload}
    {ns ns' : List Node} (hn : nodes ps = .ok ns) (hn' : nodes ps' = .ok ns')
    (hc : ns.map Node.chunk = ns'.map Node.chunk ∨ Collision (hashed ns) (hashed ns'))
    (hb : ns.map Node.chunk = ns'.map Node.chunk →
      ps = ps' ∨ Collision (allPairs ps) (allPairs ps')) :
    ps = ps' ∨
      Collision (allPairs ps ++ ownPairs hashed ps) (allPairs ps' ++ ownPairs hashed ps') := by
  rw [ownPairs_of_ok hn, ownPairs_of_ok hn']
  rcases hc with he | hx
  · rcases hb he with he | hx
    · exact Or.inl he
    · exact Or.inr (hx.append _ _)
  · exact Or.inr (hx.prepend _ _)

theorem binds_seq {a : Bool} {s : Shape} (hs : s.Binds) : (Shape.seq a s).Binds := by
  intro p p' n n' hp hp' hn hn' hc
  cases hp with
  | @seq _ _ ps hl h =>
    cases hp' with
    | @seq _ _ ps' hl' h' =>
      obtain ⟨ns, hns, hw⟩ := nodes_of_fits (rooted s) h
      obtain ⟨ns', hns', hw'⟩ := nodes_of_fits (rooted s) h'
      rw [node, hns] at hn
      rw [node, hns'] at hn'
      cases hn
      cases hn'
      rw [← length_nodes hns] at hl hw
      rw [← length_nodes hns'] at hl' hw'
      have hseq := Node.sequence_inj hl hl' (fun he => by rw [hw, hw', he]) hc
      have helems : ns.map Node.chunk = ns'.map Node.chunk →
          ps = ps' ∨ Collision (allPairs ps) (allPairs ps') := by
        intro he
        -- Now that there are equally many, both are tuples of one list of shapes.
        have hlen : ps.length = ps'.length := by
          have hm := congrArg List.length he
          rwa [List.length_map, List.length_map, length_nodes hns, length_nodes hns'] at hm
        have hb : ∀ t ∈ List.replicate ps.length s, t.Binds := by
          intro t ht
          rw [List.eq_of_mem_replicate ht]
          exact hs
        exact binds_all hb (fitsAll_replicate h) (hlen ▸ fitsAll_replicate h') hns hns' he
      rcases binds_of_own hns hns' hseq helems with rfl | hx
      · exact Or.inl rfl
      · exact Or.inr hx

theorem binds_tuple {ss : List Shape} (hs : ∀ s ∈ ss, s.Binds) : (Shape.tuple ss).Binds := by
  intro p p' n n' hp hp' hn hn' hc
  cases hp with
  | tuple h =>
    cases hp' with
    | tuple h' =>
      obtain ⟨ns, hns, hw⟩ := nodes_of_fitsAll (fun s _ => rooted s) h
      obtain ⟨ns', hns', hw'⟩ := nodes_of_fitsAll (fun s _ => rooted s) h'
      rw [node, hns] at hn
      rw [node, hns'] at hn'
      cases hn
      cases hn'
      have hroot := Node.collectionRoot_inj (hw.trans hw'.symm) hc
      rcases binds_of_own hns hns' hroot (binds_all hs h h' hns hns') with rfl | hx
      · exact Or.inl rfl
      · exact Or.inr hx

theorem binds_container {ss : List Shape} (hs : ∀ s ∈ ss, s.Binds) {ps ps' : List Payload}
    {n n' : Node} (h : FitsAll ss ps) (h' : FitsAll ss ps')
    (hn : (nodes ps).map .container = .ok n) (hn' : (nodes ps').map .container = .ok n')
    (hc : n.chunk = n'.chunk) :
    ps = ps' ∨ Collision (allPairs ps ++ ownPairs Node.containerPairs ps)
      (allPairs ps' ++ ownPairs Node.containerPairs ps') := by
  obtain ⟨ns, hns, -⟩ := nodes_of_fitsAll (fun s _ => rooted s) h
  obtain ⟨ns', hns', -⟩ := nodes_of_fitsAll (fun s _ => rooted s) h'
  rw [hns] at hn
  rw [hns'] at hn'
  cases hn
  cases hn'
  have hl : ns.length = ns'.length := by
    rw [length_nodes hns, length_nodes hns', h.length_eq, h'.length_eq]
  exact binds_of_own hns hns' (Node.container_inj hl hc) (binds_all hs h h' hns hns')

theorem binds (s : Shape) : s.Binds := by
  induction s with
  | basic k =>
    intro p p' n n' hp hp' hn hn' hc
    cases hp with
    | @basic _ b hk =>
      cases hp' with
      | @basic _ b' hk' =>
        cases hn
        cases hn'
        have hkk : b.kind = b'.kind := hk.trans hk'.symm
        have hl : b.bytes.length = b'.bytes.length := by
          rw [Basic.length_bytes, Basic.length_bytes, hkk]
        have hb : b.bytes = b'.bytes :=
          Octets.padded_inj (Nat.le_trans b.length_bytes_le (by decide)) hl hc
        rw [Basic.bytes_inj hkk hb]
        exact Or.inl rfl
  | text =>
    intro p p' n n' hp hp' hn hn' hc
    cases hp with
    | @text t hl =>
      cases hp' with
      | @text t' hl' =>
        cases hn
        cases hn'
        rcases Node.byteString_inj hl hl' hc with he | hx
        · rw [toUTF8_toList_inj he]
          exact Or.inl rfl
        · exact Or.inr hx
  | bytes =>
    intro p p' n n' hp hp' hn hn' hc
    cases hp with
    | @bytes bs hl =>
      cases hp' with
      | @bytes bs' hl' =>
        cases hn
        cases hn'
        exact (Node.byteString_inj hl hl' hc).imp (congrArg Payload.bytes) id
  | unit =>
    intro p p' n n' hp hp' hn hn' hc
    cases hp
    cases hp'
    exact Or.inl rfl
  | unitStruct =>
    intro p p' n n' hp hp' hn hn' hc
    cases hp
    cases hp'
    exact Or.inl rfl
  | newtype s ih =>
    intro p p' n n' hp hp' hn hn' hc
    cases hp with
    | @newtype _ q h =>
      cases hp' with
      | @newtype _ q' h' =>
        exact (ih q q' n n' h h' hn hn' hc).imp (congrArg Payload.newtype) id
  | seq a s ih => exact binds_seq ih
  | tuple ss ih => exact binds_tuple ih
  | tupleStruct ss ih =>
    intro p p' n n' hp hp' hn hn' hc
    cases hp with
    | tupleStruct h =>
      cases hp' with
      | tupleStruct h' =>
        exact (binds_container ih h h' hn hn' hc).imp (congrArg Payload.tupleStruct) id
  | struct ss ih =>
    intro p p' n n' hp hp' hn hn' hc
    cases hp with
    | struct h =>
      cases hp' with
      | struct h' => exact (binds_container ih h h' hn hn' hc).imp (congrArg Payload.struct) id

theorem root_of_fits {s : Shape} {p : Payload} (h : s.Fits p) :
    ∃ n, p.node = .ok n ∧ p.root = .ok ⟨n.chunk⟩ := by
  obtain ⟨n, hn, -⟩ := rooted s p h
  exact ⟨n, hn, congrArg (Except.map _) hn⟩

end Shape

open Shape Payload
open Merkle (Collision)

/-- Two payloads of one shape have roots, and if these come to one digest, each in its domain, then
payloads and domains are the same, or two inputs of the hash collide, one from either digest. -/
theorem signingDigest_binds (s : Shape) {p p' : Payload} (hp : s.Fits p) (hp' : s.Fits p')
    (d d' : Domain) :
    ∃ r r', p.root = .ok r ∧ p'.root = .ok r' ∧
      (signingDigest r d = signingDigest r' d' →
        (p = p' ∧ d = d') ∨ Collision (digestPairs p d) (digestPairs p' d')) := by
  obtain ⟨n, hn, hr⟩ := root_of_fits hp
  obtain ⟨n', hn', hr'⟩ := root_of_fits hp'
  refine ⟨_, _, hr, hr', fun h => ?_⟩
  rw [digestPairs_of_ok d hr, digestPairs_of_ok d' hr']
  rw [signingDigest_eq, signingDigest_eq] at h
  have hh : Merkle.hashPair n.chunk d.octets = Merkle.hashPair n'.chunk d'.octets :=
    congrArg Block.octets h
  rcases Merkle.hashPair_inj hh with ⟨hc, hd⟩ | hx
  · rcases binds s p p' n n' hp hp' hn hn' hc with rfl | hx
    · exact Or.inl ⟨rfl, congrArg Block.mk hd⟩
    · exact Or.inr (hx.append _ _)
  · exact Or.inr (hx.prepend _ _)

/-- A number and a list of byte strings. -/
def noted (n : BitVec 64) (notes : List (List UInt8)) : Payload :=
  .struct [.basic (.unsigned .eight n), .seq true (notes.map .bytes)]

theorem noted_binds :
    let s : Shape := .struct [.basic (.unsigned .eight), .seq true .bytes]
    let d : Domain := ⟨Octets.zero 32⟩
    s.Fits (noted 1 [[7], []]) ∧ s.Fits (noted 2 [[7], []]) ∧
      ∃ r r', (noted 1 [[7], []]).root = .ok r ∧ (noted 2 [[7], []]).root = .ok r' ∧
        (signingDigest r d = signingDigest r' d →
          Collision (digestPairs (noted 1 [[7], []]) d) (digestPairs (noted 2 [[7], []]) d)) := by
  intro s d
  have hs : ∀ n, s.Fits (noted n [[7], []]) := by
    intro n
    have hseq : Shape.Fits (.seq true .bytes) (.seq true [.bytes [7], .bytes []]) := by
      refine .seq (by decide) (List.forall_mem_cons.2 ⟨.bytes (by decide), ?_⟩)
      exact List.forall_mem_cons.2 ⟨.bytes (by decide), nofun⟩
    exact .struct (.cons (.basic rfl) (.cons hseq .nil))
  obtain ⟨r, r', hr, hr', h⟩ := signingDigest_binds s (hs 1) (hs 2) d d
  refine ⟨hs 1, hs 2, r, r', hr, hr', fun he => (h he).resolve_left ?_⟩
  rintro ⟨hp, -⟩
  cases hp

end Notary
