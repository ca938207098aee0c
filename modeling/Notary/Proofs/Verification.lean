import Notary.Proofs.VaultHistory

/-! What is signed verifies. A signature of a vault is its keypair's over the hash of the root and
the domain, whichever interface it was made by, and the verifier hashes the same. The keypair is the
one the vault was built from, through every history of the vault. -/

namespace Notary

/-- The verifier takes what the keypair itself makes of a message. -/
def Keypair.AcceptsOwn (k : Keypair) (message : List UInt8) : Prop :=
  (k.publicKey.verify message (k.sign message)).isOk = true

/-- The digest that an order has signed. -/
def Process.Order.digest : Process.Order → Digest
  | ofRoot root domain => signingDigest root domain
  | ofDigest digest => digest

namespace Vault
open Account Process

/-- What a vault is fitted with when it is built. -/
inductive Feature
  | passphrase (p : Passphrase)
  | record

def fit (v : Vault) : Feature → Vault
  | .passphrase p => v.withPassphrase p
  | .record => v.withRecord

def build (name : String) (keypair : Keypair) (fs : List Feature) : Vault :=
  fs.foldl fit (ofKeypair name keypair)

theorem keypair_fit (v : Vault) (f : Feature) : (v.fit f).keypair = v.keypair := by
  cases f <;> rfl

theorem keypair_foldl_fit (v : Vault) (fs : List Feature) :
    (fs.foldl fit v).keypair = v.keypair := by
  induction fs generalizing v with
  | nil => rfl
  | cons f fs ih => exact (ih (v.fit f)).trans (keypair_fit v f)

section
variable {v : Vault} {s : Signature}

theorem carryOut_of_ok {order : Order} (h : (v.carryOut order).2 = .ok s) :
    s = v.keypair.sign order.digest.bytes := by
  cases order with
  | ofRoot root domain =>
    rw [carryOut_ofRoot] at h
    split at h
    · cases h
    · exact (Except.ok.inj h).symm
  | ofDigest digest =>
    change v.sign digest = .ok s at h
    unfold sign at h
    split at h
    · exact (Except.ok.inj h).symm
    · cases h

theorem digest_order (v : Vault) (root : Root) (domain : Domain) :
    (v.order root domain).digest = signingDigest root domain := by
  unfold order
  split <;> rfl

theorem signed_of_course {root : Root} {domain : Domain} {xs : List Exchange} {v' : Vault}
    (h : Course v (v.order root domain) xs (.ok s) v') :
    s = v.keypair.sign (signingDigest root domain).bytes := by
  generalize hr : Except.ok s = result at h
  cases h with
  | refused => cases hr
  | carriedOut h =>
    have hc : (v.opened.carryOut (v.order root domain)).2 = .ok s := by
      cases hs : (v.opened.carryOut (v.order root domain)).2 with
      | error e =>
        rw [hs] at hr
        cases hr
      | ok g =>
        rw [hs] at hr
        cases hr
        rfl
    rw [carryOut_of_ok hc, digest_order]
    rfl

theorem signed_of_signPayload {account : String} {c : Config} {payload : Payload} {domain : Domain}
    (h : ((signPayload account c payload domain).run none v).ending = .finished (.ok s)) :
    ∃ root, payload.root = .ok root ∧
      s = v.keypair.sign (sha256 (root.bytes ++ domain.bytes)).toList := by
  unfold signPayload at h
  cases hr : payload.root with
  | error e =>
    rw [hr] at h
    cases h
  | ok root =>
    rw [hr] at h
    obtain ⟨result, he, hc⟩ := course_signRoot account c root domain v
    have hs : result = .ok s := Ending.finished.inj (he.symm.trans h)
    rw [hs] at hc
    refine ⟨root, rfl, ?_⟩
    rw [signed_of_course hc, signingDigest_eq]
    rfl

theorem verifyPayload_of_acceptsOwn {root : Root} {payload : Payload} {domain : Domain}
    (hr : payload.root = .ok root)
    (ha : v.keypair.AcceptsOwn (sha256 (root.bytes ++ domain.bytes)).toList)
    (hs : s = v.keypair.sign (sha256 (root.bytes ++ domain.bytes)).toList) :
    (verifyPayload v payload domain s).2 = .ok true := by
  have hv : s.verifies (signingDigest root domain) v.keypair.publicKey = true := by
    unfold Signature.verifies
    rw [signingDigest_eq, hs]
    exact ha
  unfold verifyPayload
  rw [hr]
  exact congrArg Except.ok hv

end

end Vault

namespace Shared
open Vault

/-- Whatever a vault was fitted with and whatever was done with it, what a request returns is its
seed's signature over the hash of the root and the domain, and verifies ever after. -/
theorem signed_verifies (name : String) (seed : Octets 32) (fs : List Feature) (before : List Act)
    (c : Config) (payload : Payload) (domain : Domain) {s : Signature}
    (h : let w := acts ⟨build name ⟨seed⟩ fs, [], []⟩ before
      ((Process.signPayload (Account.name w.account) c payload domain).run none w.account).ending =
        .finished (.ok s)) :
    ∃ root, payload.root = .ok root ∧
      let message := (sha256 (root.bytes ++ domain.bytes)).toList
      s = Keypair.sign ⟨seed⟩ message ∧
        (Keypair.AcceptsOwn ⟨seed⟩ message → ∀ after,
          let w := acts ⟨build name ⟨seed⟩ fs, [], []⟩
            (before ++ .move (.signPayload c payload domain) :: after)
          (Account.verifyPayload w.account payload domain s).2 = .ok true) := by
  have hk : ∀ as, (acts ⟨build name ⟨seed⟩ fs, [], []⟩ as).account.keypair = ⟨seed⟩ := fun as =>
    (keypair_acts _ as).trans (keypair_foldl_fit (ofKeypair name ⟨seed⟩) fs)
  obtain ⟨root, hr, hs⟩ := signed_of_signPayload h
  rw [hk] at hs
  refine ⟨root, hr, hs, fun ha after => ?_⟩
  refine verifyPayload_of_acceptsOwn hr ?_ ?_
  · rw [hk]
    exact ha
  · rw [hk]
    exact hs

/-- The signature comes from a vault that was fitted with both, by its second passphrase. -/
theorem fitted_verifies :
    let fs := [.record, .passphrase ⟨[1]⟩]
    let w := acts ⟨build "vault" ⟨Octets.zero 32⟩ fs, [], []⟩ [.unlock [0]]
    let c : Config := ⟨.ofSeconds 1, [⟨[0]⟩, ⟨[1]⟩]⟩
    let domain : Domain := ⟨Octets.zero 32⟩
    let r := (Process.signPayload (Account.name w.account) c .unit domain).run none w.account
    ∃ s, r.ending = .finished (.ok s) ∧ r.account.unlocked = false ∧
      (Account.verifyPayload r.account .unit domain s).2 = .ok true := by
  intro fs w c domain r
  have hf : .finished true = r.ending.map Except.isOk := by decide +kernel
  have hl : r.account.unlocked = false := by decide +kernel
  have ha : Keypair.AcceptsOwn ⟨Octets.zero 32⟩ (sha256 (List.replicate 64 0)).toList := by
    unfold Keypair.AcceptsOwn
    decide +kernel
  have hu : Payload.unit.root = .ok ⟨Octets.zero 32⟩ := rfl
  obtain ⟨result, hs, ho⟩ := Ending.finished_eq_map_iff.1 hf
  cases result with
  | error e => cases ho
  | ok s =>
    obtain ⟨root, hr, -, hv⟩ :=
      signed_verifies "vault" (Octets.zero 32) fs [.unlock [0]] c .unit domain hs
    cases hu.symm.trans hr
    exact ⟨s, hs, hl, hv ha []⟩

end Shared

end Notary
