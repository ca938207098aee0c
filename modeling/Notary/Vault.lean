import Notary.Account
import Notary.Config

/-! A key held in memory. A passphrase, of which only the hash is kept, gates it; a replay record
makes it sign each root at most once in a domain. It answers every call at once. -/

namespace Notary

structure Vault where
  name : String
  keypair : Keypair
  passphraseHash : Option (Octets 32)
  unlocked : Bool
  signed : Option (List (Root × Domain))
deriving DecidableEq, Repr

namespace Vault

def ofKeypair (name : String) (keypair : Keypair) : Vault := ⟨name, keypair, none, true, none⟩

def hashPassphrase (bs : List UInt8) : Octets 32 := sha256 bs

/-- The vault begins locked. -/
def withPassphrase (v : Vault) (p : Passphrase) : Vault :=
  { v with passphraseHash := some (hashPassphrase p.bytes), unlocked := false }

/-- The vault begins with an empty replay record. -/
def withRecord (v : Vault) : Vault := { v with signed := some [] }

def offers (v : Vault) : Capability → Bool
  | .locker => v.passphraseHash.isSome
  | .protectingSigner => v.signed.isSome
  | .signer => true

def unlock (v : Vault) (passphrase : List UInt8) : Vault × Except AccountError Unit :=
  match v.passphraseHash with
  | none => (v, .ok ())
  | some h =>
    if h = hashPassphrase passphrase then ({ v with unlocked := true }, .ok ())
    else (v, .error .incorrectPassphrase)

def lock (v : Vault) : Vault :=
  if v.passphraseHash.isSome then { v with unlocked := false } else v

/-- Only the lock can change, and only by the passphrase that was set last. -/
theorem unlock_fst (v : Vault) (p : List UInt8) :
    (v.unlock p).1
      = { v with unlocked := v.unlocked || v.passphraseHash == some (hashPassphrase p) } := by
  obtain ⟨name, keypair, hash, unlocked, signed⟩ := v
  cases hash with
  | none => simp [unlock]
  | some h => by_cases he : h = hashPassphrase p <;> simp [unlock, he]

theorem lock_eq (v : Vault) :
    v.lock = { v with unlocked := v.unlocked && v.passphraseHash.isNone } := by
  obtain ⟨name, keypair, hash, unlocked, signed⟩ := v
  cases hash <;> simp [lock]

def sign (v : Vault) (digest : Digest) : Except AccountError Signature :=
  if v.unlocked then .ok (v.keypair.sign digest.bytes) else .error .locked

/-- Enters the pair into the record, or says why it does not. -/
def record (v : Vault) (root : Root) (domain : Domain) : Except AccountError Vault :=
  if v.unlocked then
    match v.signed with
    | none => .error (.refused .notProtecting)
    | some pairs =>
      if (root, domain) ∈ pairs then .error (.refused (.alreadySigned root domain))
      else .ok { v with signed := some ((root, domain) :: pairs) }
  else .error .locked

def attempt : (r : Request) → Vault → Attempt Vault r.Reply
  | .isUnlocked, v => .immediate [] v (.ok v.unlocked)
  | .unlock passphrase, v => .immediate [] (v.unlock passphrase).1 (v.unlock passphrase).2
  | .lock, v => .immediate [] v.lock (.ok ())
  | .sign digest, v => .immediate [] v (v.sign digest)
  | .signGeneric root domain, v =>
    match v.record root domain with
    | .error e => .immediate [] v (.error e)
    | .ok v' =>
      .immediate (digestEvents root domain) v'
        (.ok (v.keypair.sign (signingDigest root domain).bytes))

instance : Account Vault where
  name := name
  publicKey v := some v.keypair.publicKey
  compositeKey _ := none
  offers c v := (v.offers c, v)
  attempt := attempt

end Vault

end Notary
