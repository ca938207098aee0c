import Notary.Proofs.Context
import Notary.Proofs.DigestPath

/-! The digest of a root in a domain. It is what their container comes to as a payload, which always
has a root, and that is the hash of the 64 bytes of the two. Bytes from outside are taken if there
are exactly 32 of each, as they are; otherwise the error names the first that is wrong. -/

namespace Notary

namespace Block
variable {p : Part} {bs : List UInt8}

theorem ofBytes?_eq_some_iff {b : Block p} : ofBytes? p bs = some b ↔ b.bytes = bs := by
  constructor
  · intro h
    obtain ⟨o, ho, rfl⟩ := Option.map_eq_some_iff.1 h
    exact Octets.ofList?_eq_some_iff.1 ho
  · rintro rfl
    exact ofBytes?_bytes b

theorem ofBytes_eq_ok_iff {b : Block p} : ofBytes p bs = .ok b ↔ b.bytes = bs := by
  rw [← ofBytes?_eq_some_iff, ofBytes]
  cases ofBytes? p bs <;> simp

theorem ofBytes_eq_error_iff {e : Error} :
    ofBytes p bs = .error e ↔ bs.length ≠ 32 ∧ e = .invalidLength p bs.length := by
  rw [← ofBytes?_eq_none_iff (p := p), ofBytes]
  cases ofBytes? p bs <;> simp [eq_comm]

theorem exists_bytes_iff : (∃ b : Block p, b.bytes = bs) ↔ bs.length = 32 := by
  constructor
  · rintro ⟨b, rfl⟩
    exact b.length_bytes
  · intro h
    cases hb : ofBytes p bs with
    | ok b => exact ⟨b, ofBytes_eq_ok_iff.1 hb⟩
    | error e => exact absurd h (ofBytes_eq_error_iff.1 hb).1

end Block

namespace SigningContainer
variable {root domain : List UInt8}

theorem ofBytes_of_error {e : Error} (h : Block.ofBytes .root root = .error e) :
    ofBytes root domain = .error e := by
  rw [ofBytes, h]
  rfl

theorem ofBytes_of_ok {r : Root} (h : Block.ofBytes .root root = .ok r) :
    ofBytes root domain = (Block.ofBytes .domain domain).map (mk r) := by
  rw [ofBytes, h]
  rfl

theorem ofBytes_eq_ok_iff {c : SigningContainer} :
    ofBytes root domain = .ok c ↔ c.root.bytes = root ∧ c.domain.bytes = domain := by
  obtain ⟨r, d⟩ := c
  rw [← Block.ofBytes_eq_ok_iff, ← Block.ofBytes_eq_ok_iff]
  cases hr : Block.ofBytes .root root with
  | error e =>
    rw [ofBytes_of_error hr]
    exact ⟨nofun, fun h => nomatch h.1⟩
  | ok r' =>
    rw [ofBytes_of_ok hr]
    cases Block.ofBytes .domain domain <;> simp [Except.map]

/-- The root is at fault wherever it is wrong, and the domain only beside a root that is right. -/
theorem ofBytes_eq_error_iff {e : Error} :
    ofBytes root domain = .error e ↔
      root.length ≠ 32 ∧ e = .invalidLength .root root.length ∨
        root.length = 32 ∧ domain.length ≠ 32 ∧ e = .invalidLength .domain domain.length := by
  rw [← Block.ofBytes_eq_error_iff, ← Block.ofBytes_eq_error_iff]
  cases hr : Block.ofBytes .root root with
  | error e' =>
    have hl : root.length ≠ 32 := (Block.ofBytes_eq_error_iff.1 hr).1
    rw [ofBytes_of_error hr]
    simp [hl]
  | ok r =>
    have hl : root.length = 32 := Block.exists_bytes_iff.1 ⟨r, Block.ofBytes_eq_ok_iff.1 hr⟩
    rw [ofBytes_of_ok hr]
    cases Block.ofBytes .domain domain <;> simp [Except.map, hl]

end SigningContainer

/-- The container of a root and a domain always has a root of its own, which is their digest and the
hash of their bytes. From outside, a digest is made of those very bytes or not at all. -/
theorem containerDigest_eq :
    (∀ (root : Root) (domain : Domain),
      (SigningContainer.mk root domain).payload.root =
          .ok ⟨sha256 (root.bytes ++ domain.bytes)⟩ ∧
        signingDigest root domain = ⟨sha256 (root.bytes ++ domain.bytes)⟩) ∧
      ∀ root domain : List UInt8,
        let result := (SigningContainer.ofBytes root domain).map SigningContainer.digest
        (∀ digest, result = .ok digest ↔ ∃ (r : Root) (d : Domain),
          r.bytes = root ∧ d.bytes = domain ∧ digest = signingDigest r d) ∧
        ((∃ digest, result = .ok digest) ↔ root.length = 32 ∧ domain.length = 32) ∧
        ∀ e, result = .error e ↔
          root.length ≠ 32 ∧ e = .invalidLength .root root.length ∨
            root.length = 32 ∧ domain.length ≠ 32 ∧
              e = .invalidLength .domain domain.length := by
  refine ⟨fun root domain => ⟨SigningContainer.root_eq_hashPair _, signingDigest_eq root domain⟩,
    fun root domain => ?_⟩
  intro result
  have hok : ∀ digest, result = .ok digest ↔ ∃ (r : Root) (d : Domain),
      r.bytes = root ∧ d.bytes = domain ∧ digest = signingDigest r d := by
    intro digest
    constructor
    · intro h
      obtain ⟨c, hc, rfl⟩ := map_eq_ok_iff.1 h
      obtain ⟨hr, hd⟩ := SigningContainer.ofBytes_eq_ok_iff.1 hc
      exact ⟨c.root, c.domain, hr, hd, rfl⟩
    · rintro ⟨r, d, hr, hd, rfl⟩
      exact map_eq_ok_iff.2 ⟨⟨r, d⟩, SigningContainer.ofBytes_eq_ok_iff.2 ⟨hr, hd⟩, rfl⟩
  refine ⟨hok, ?_, fun e => ?_⟩
  · rw [← Block.exists_bytes_iff (p := .root), ← Block.exists_bytes_iff (p := .domain)]
    constructor
    · rintro ⟨digest, h⟩
      obtain ⟨r, d, hr, hd, -⟩ := (hok digest).1 h
      exact ⟨⟨r, hr⟩, ⟨d, hd⟩⟩
    · rintro ⟨⟨r, hr⟩, ⟨d, hd⟩⟩
      exact ⟨_, (hok _).2 ⟨r, d, hr, hd, rfl⟩⟩
  · exact map_eq_error_iff.trans SigningContainer.ofBytes_eq_error_iff

end Notary
