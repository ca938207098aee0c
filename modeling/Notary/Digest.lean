import Notary.Payload.Root

/-! What is signed: a payload root bound to a domain. The two stand in a container whose own
structural root is the digest. It always has one, and that is the hash of the 64 bytes of both. -/

namespace Notary

namespace Block
variable {p : Part}

def payload (b : Block p) : Payload := .ofOctets b.octets

end Block

namespace Signature

def payload (s : Signature) : Payload := .bytes s.bytes

end Signature

structure SigningContainer where
  root : Root
  domain : Domain
deriving DecidableEq, Repr

namespace SigningContainer

def payload (c : SigningContainer) : Payload := .struct [c.root.payload, c.domain.payload]

theorem nodes_fields (c : SigningContainer) :
    Payload.nodes [c.root.payload, c.domain.payload] =
      .ok [.composite c.root.octets, .composite c.domain.octets] := by
  have hd : Payload.nodes [c.domain.payload] = .ok [.composite c.domain.octets] :=
    Payload.nodes_cons_eq_ok_iff.2 ⟨_, _, Payload.node_ofOctets _, rfl, rfl⟩
  exact Payload.nodes_cons_eq_ok_iff.2 ⟨_, _, Payload.node_ofOctets _, hd, rfl⟩

/-- The two fields are hashed as they are, and nothing else is. -/
theorem root_eq_hashPair (c : SigningContainer) :
    c.payload.root = .ok ⟨Merkle.hashPair c.root.octets c.domain.octets⟩ := by
  rw [payload, Payload.root, Payload.node, nodes_fields]
  rfl

theorem isSome_root (c : SigningContainer) : c.payload.root.toOption.isSome := by
  rw [root_eq_hashPair]
  rfl

/-- What the container hashes to as a payload. -/
def digest (c : SigningContainer) : Digest :=
  ⟨(c.payload.root.toOption.get c.isSome_root).octets⟩

theorem digest_eq (c : SigningContainer) :
    c.digest = ⟨Merkle.hashPair c.root.octets c.domain.octets⟩ := by
  simp only [digest, root_eq_hashPair, Except.toOption, Option.get_some]

theorem root_payload (c : SigningContainer) : c.payload.root = .ok ⟨c.digest.octets⟩ := by
  rw [digest_eq, root_eq_hashPair]

def brief (c : SigningContainer) : String :=
  "SigningContainer \x7b root: " ++ c.root.brief ++ ", domain: " ++ c.domain.brief ++ " \x7d"

end SigningContainer

def signingDigest (root : Root) (domain : Domain) : Digest :=
  (SigningContainer.mk root domain).digest

theorem signingDigest_eq (root : Root) (domain : Domain) :
    signingDigest root domain = ⟨sha256 (root.bytes ++ domain.bytes)⟩ :=
  SigningContainer.digest_eq ⟨root, domain⟩

end Notary
