import Mathlib.Data.List.Induction
import Notary.Proofs.ReplayRecord
import Notary.Proofs.VaultProgram
import Notary.Proofs.Verification

/-! The exact outcome of a request to a vault. Whatever the vault was fitted with and whatever was
done with it before, the payload, the timeout, the lock, the candidates and the replay record decide
the result, in this order, and the vault is given back as it was but for the pair that was signed.
Of the candidates it only counts which hashes are among them. -/

namespace Notary

namespace Vault
open Account Process

def Feature.passphrase? : Feature → Option Passphrase
  | .passphrase p => some p
  | .record => none

/-- The passphrase that was set last. -/
def lastPassphrase (fs : List Feature) : Option Passphrase :=
  (fs.filterMap Feature.passphrase?).getLast?

/-- The vault keeps the hash of `key`; without a passphrase it is never locked. -/
structure Keyed (key : Option Passphrase) (v : Vault) : Prop where
  hash_eq : v.passphraseHash = key.map fun k => sha256 k.bytes
  unlocked_of_none : v.passphraseHash = none → v.unlocked = true

theorem keyed_build (name : String) (keypair : Keypair) (fs : List Feature) :
    (build name keypair fs).Keyed (lastPassphrase fs) := by
  induction fs using List.reverseRecOn with
  | nil => exact ⟨rfl, fun _ => rfl⟩
  | append_singleton fs f ih =>
    have hb : build name keypair (fs ++ [f]) = (build name keypair fs).fit f := by
      rw [build, List.foldl_append]
      rfl
    rw [hb, lastPassphrase, List.filterMap_append]
    cases f with
    | passphrase p =>
      have hl : (fs.filterMap Feature.passphrase? ++ [p]).getLast? = some p :=
        List.getLast?_concat
      exact ⟨congrArg (Option.map fun k : Passphrase => sha256 k.bytes) hl.symm, nofun⟩
    | record =>
      rw [List.filterMap_cons_none rfl, List.filterMap_nil, List.append_nil]
      exact ⟨ih.hash_eq, ih.unlocked_of_none⟩

theorem unlock_of_none {v : Vault} (h : v.passphraseHash = none) (p : List UInt8) :
    (v.unlock p).1 = v := by
  unfold unlock
  rw [h]

theorem Keyed.attempt {key : Option Passphrase} {v : Vault} (h : v.Keyed key) (r : Request) :
    (Account.attempt r v).after.Keyed key := by
  obtain ⟨unlocked, signed, ha, hu⟩ := after_attempt r v
  have hh : (Account.attempt r v).after.passphraseHash = v.passphraseHash := by rw [ha]
  refine ⟨hh.trans h.hash_eq, fun hn => ?_⟩
  rw [hh] at hn
  have hk : (Account.attempt r v).after.unlocked = v.unlocked := by
    cases r with
    | unlock p => exact congrArg Vault.unlocked (unlock_of_none hn p)
    | lock => exact congrArg Vault.unlocked (if_neg (by simp [hn]))
    | _ => exact unlocked_after_attempt rfl v
  exact hk.trans (h.unlocked_of_none hn)

/-- Locked under `key`, whose hash no candidate has. -/
def ShutOut (key : Option Passphrase) (v : Vault) (c : Config) : Prop :=
  ∃ k ∈ key, v.unlocked = false ∧ ∀ p ∈ c.passphrases, sha256 p.bytes ≠ sha256 k.bytes

instance (key : Option Passphrase) (v : Vault) (c : Config) : Decidable (ShutOut key v c) :=
  inferInstanceAs (Decidable (∃ k ∈ key, v.unlocked = false ∧
    ∀ p ∈ c.passphrases, sha256 p.bytes ≠ sha256 k.bytes))

/-- A record is kept, and the pair is in it. -/
def Recorded (v : Vault) (root : Root) (domain : Domain) : Prop :=
  (root, domain) ∈ v.signed.getD []

instance (v : Vault) (root : Root) (domain : Domain) : Decidable (v.Recorded root domain) :=
  decidable_of_iff _ List.contains_iff_mem

/-- What a request comes to with a vault under `key`, and the vault that it leaves. -/
def verdict (key : Option Passphrase) (v : Vault) (c : Config) (payload : Payload)
    (domain : Domain) : Except Error Signature × Vault :=
  match payload.root with
  | .error e => (.error (.noRoot e), v)
  | .ok root =>
    if c.timeout = ⟨0⟩ then (.error .zeroTimeout, v)
    else if ShutOut key v c then (.error (.unlockFailed v.name c.passphrases.length), v)
    else if v.Recorded root domain then
      (.error (.signing (.refused (.alreadySigned root domain))), v)
    else
      (.ok (v.keypair.sign (signingDigest root domain).bytes),
        { v with signed := v.signed.map ((root, domain) :: ·) })

section
variable {key : Option Passphrase} {v : Vault}

theorem Keyed.shut_iff (h : v.Keyed key) (c : Config) : v.Shut c ↔ ShutOut key v c := by
  cases key with
  | none =>
    have hv : ¬ v.Lockable := by
      rw [Lockable, h.hash_eq]
      exact nofun
    exact ⟨fun hs => absurd hs.1 hv, nofun⟩
  | some k =>
    have hv : v.Lockable := by
      rw [Lockable, h.hash_eq]
      rfl
    have ho : ∀ p, v.OpensBy p ↔ sha256 p.bytes = sha256 k.bytes := by
      intro p
      rw [OpensBy, h.hash_eq, Option.map_some, Option.some_inj, hashPassphrase]
      exact eq_comm
    constructor
    · rintro ⟨-, hl, hp⟩
      exact ⟨k, rfl, hl, fun p hm he => hp p hm ((ho p).2 he)⟩
    · rintro ⟨k', hk, hl, hp⟩
      obtain rfl := Option.mem_some_iff.1 hk
      exact ⟨hv, hl, fun p hm he => hp p hm ((ho p).1 he)⟩

/-- An open vault refuses only what its record holds. -/
theorem Keyed.carryOut_opened (h : v.Keyed key) (root : Root) (domain : Domain) :
    v.opened.carryOut (v.order root domain) =
      if v.Recorded root domain then
        (v.opened, .error (.refused (.alreadySigned root domain)))
      else
        ({ v.opened with signed := v.signed.map ((root, domain) :: ·) },
          .ok (v.keypair.sign (signingDigest root domain).bytes)) := by
  have hu : v.opened.unlocked = true := by
    cases hh : v.passphraseHash with
    | none => simp [opened, h.unlocked_of_none hh]
    | some hash => simp [opened, hh]
  cases hs : v.signed with
  | none =>
    have ho : v.order root domain = .ofDigest (signingDigest root domain) := if_neg (by simp [hs])
    have hg : v.opened.sign (signingDigest root domain) =
        .ok (v.keypair.sign (signingDigest root domain).bytes) := if_pos hu
    have hn : { v.opened with signed := none } = v.opened := by rw [← hs]; rfl
    have hm : ¬ v.Recorded root domain := by
      rw [Recorded, hs]
      exact List.not_mem_nil
    rw [ho, if_neg hm, Option.map_none, hn, ← hg]
    rfl
  | some pairs =>
    have ho : v.order root domain = .ofRoot root domain := if_pos (by simp [hs])
    have hp : v.opened.signed = some pairs := hs
    have hm : v.Recorded root domain ↔ (root, domain) ∈ pairs := by
      rw [Recorded, hs, Option.getD_some]
    rw [ho, carryOut_of_signed hp, if_pos hu, Option.map_some]
    simp only [hm]
    rfl

theorem Keyed.perform_signPayload (h : v.Keyed key) (c : Config) (payload : Payload)
    (domain : Domain) :
    perform (signPayload (Account.name v) c payload domain) v = v.verdict key c payload domain := by
  unfold signPayload verdict
  cases payload.root with
  | error e => rfl
  | ok root =>
    change perform (signRoot v.name c root domain) v = _
    rw [perform_signRoot, h.carryOut_opened]
    simp only [h.shut_iff]
    split
    · rfl
    · split
      · rfl
      · split <;> rfl

/-- Either nothing is done, or the pair is signed for the first time. -/
theorem verdict_eq (key : Option Passphrase) (v : Vault) (c : Config) (payload : Payload)
    (domain : Domain) :
    (∃ e, v.verdict key c payload domain = (.error e, v) ∧ ∀ o t, e ≠ .timeout o t) ∨
      ∃ root, payload.root = .ok root ∧ ¬ v.Recorded root domain ∧
        ¬ ShutOut key v c ∧ v.verdict key c payload domain =
          (.ok (v.keypair.sign (signingDigest root domain).bytes),
            { v with signed := v.signed.map ((root, domain) :: ·) }) := by
  unfold verdict
  cases hr : payload.root with
  | error e => exact Or.inl ⟨_, rfl, nofun⟩
  | ok root =>
    dsimp only
    split
    · exact Or.inl ⟨_, rfl, nofun⟩
    · split
      · exact Or.inl ⟨_, rfl, nofun⟩
      · rename_i hs
        split
        · exact Or.inl ⟨_, rfl, nofun⟩
        · rename_i hm
          exact Or.inr ⟨root, rfl, hm, hs, rfl⟩

theorem ShutOut.anti {c c' : Config} (hc : c.passphrases ⊆ c'.passphrases)
    (h : ShutOut key v c') : ShutOut key v c := by
  obtain ⟨k, hk, hl, hp⟩ := h
  exact ⟨k, hk, hl, fun p hm => hp p (hc hm)⟩

/-- The candidates count only for whether one of them opens the vault, and for their number where
none does. -/
theorem verdict_congr {c c' : Config} (payload : Payload) (domain : Domain)
    (ht : c.timeout = c'.timeout) (hs : ShutOut key v c ↔ ShutOut key v c') :
    v.verdict key c payload domain = v.verdict key c' payload domain ∨
      v.verdict key c payload domain = (.error (.unlockFailed v.name c.passphrases.length), v) ∧
        v.verdict key c' payload domain =
          (.error (.unlockFailed v.name c'.passphrases.length), v) := by
  unfold verdict
  cases payload.root with
  | error e => exact Or.inl rfl
  | ok root =>
    dsimp only
    rw [← ht]
    by_cases h₀ : c.timeout = ⟨0⟩
    · exact Or.inl (by rw [if_pos h₀, if_pos h₀])
    · rw [if_neg h₀, if_neg h₀]
      by_cases h : ShutOut key v c
      · exact Or.inr ⟨if_pos h, if_pos (hs.1 h)⟩
      · exact Or.inl (by rw [if_neg h, if_neg (mt hs.2 h)])

/-- How requests for one payload fare with a vault under `key`, by their configurations. -/
structure Judged (key : Option Passphrase) (v : Vault) (payload : Payload) (domain : Domain)
    (r : Config → Run Vault (Except Error Signature)) : Prop where
  ending_eq : ∀ c, (r c).ending = .finished (v.verdict key c payload domain).1
  account_eq : ∀ c, (r c).account = (v.verdict key c payload domain).2
  not_timeout : ∀ c o t, (r c).ending ≠ .finished (.error (.timeout o t))
  unlocked_eq : ∀ c, (r c).account.unlocked = v.unlocked
  kept : ∀ c e, (r c).ending = .finished (.error e) → (r c).account = v
  /-- A signature spends its pair, where a record is kept, and nothing else. -/
  granted : ∀ c s, (r c).ending = .finished (.ok s) →
    ∃ root, payload.root = .ok root ∧ ¬ v.Recorded root domain ∧
      (r c).account = { v with signed := v.signed.map ((root, domain) :: ·) }
  perm : ∀ c c', c.timeout = c'.timeout → c.passphrases.Perm c'.passphrases →
    (r c).ending = (r c').ending ∧ (r c).account = (r c').account
  /-- Candidates that are repeated show in nothing but the number of attempts. -/
  repeated : ∀ c c', c.timeout = c'.timeout → (∀ p, p ∈ c.passphrases ↔ p ∈ c'.passphrases) →
    (r c).account = (r c').account ∧
      ((r c).ending = (r c').ending ∨
        (r c).ending = .finished (.error (.unlockFailed v.name c.passphrases.length)) ∧
          (r c').ending = .finished (.error (.unlockFailed v.name c'.passphrases.length)))
  more : ∀ c c' s, c.timeout = c'.timeout → c.passphrases ⊆ c'.passphrases →
    (r c).ending = .finished (.ok s) →
      (r c').ending = .finished (.ok s) ∧ (r c').account = (r c).account

theorem judged_of_verdict {payload : Payload} {domain : Domain}
    {r : Config → Run Vault (Except Error Signature)}
    (he : ∀ c, (r c).ending = .finished (v.verdict key c payload domain).1)
    (ha : ∀ c, (r c).account = (v.verdict key c payload domain).2) :
    Judged key v payload domain r where
  ending_eq := he
  account_eq := ha
  not_timeout c o t h := by
    rw [he] at h
    rcases verdict_eq key v c payload domain with ⟨e, hv, hn⟩ | ⟨root, -, -, -, hv⟩
    · rw [hv] at h
      exact hn o t (Except.error.inj (Ending.finished.inj h))
    · rw [hv] at h
      cases h
  unlocked_eq c := by
    rw [ha]
    rcases verdict_eq key v c payload domain with ⟨e, hv, -⟩ | ⟨root, -, -, -, hv⟩ <;> rw [hv]
  kept c e h := by
    rw [he] at h
    rw [ha]
    rcases verdict_eq key v c payload domain with ⟨e, hv, -⟩ | ⟨root, -, -, -, hv⟩
    · rw [hv]
    · rw [hv] at h
      cases h
  granted c s h := by
    rw [he] at h
    rw [ha]
    rcases verdict_eq key v c payload domain with ⟨e, hv, -⟩ | ⟨root, hr, hm, -, hv⟩
    · rw [hv] at h
      cases h
    · rw [hv]
      exact ⟨root, hr, hm, rfl⟩
  perm c c' ht hp := by
    rw [he, he, ha, ha]
    have hs : ShutOut key v c ↔ ShutOut key v c' :=
      ⟨.anti hp.symm.subset, .anti hp.subset⟩
    rcases verdict_congr payload domain ht hs with hv | ⟨hv, hv'⟩
    · rw [hv]
      exact ⟨rfl, rfl⟩
    · rw [hv, hv', hp.length_eq]
      exact ⟨rfl, rfl⟩
  repeated c c' ht hp := by
    rw [he, he, ha, ha]
    have hs : ShutOut key v c ↔ ShutOut key v c' :=
      ⟨.anti fun p hm => (hp p).2 hm, .anti fun p hm => (hp p).1 hm⟩
    rcases verdict_congr payload domain ht hs with hv | ⟨hv, hv'⟩
    · rw [hv]
      exact ⟨rfl, Or.inl rfl⟩
    · rw [hv, hv']
      exact ⟨rfl, Or.inr ⟨rfl, rfl⟩⟩
  more c c' s ht hc h := by
    rw [he] at h
    rw [he, ha, ha]
    rcases verdict_eq key v c payload domain with ⟨e, hv, -⟩ | ⟨root, -, -, hn, hv⟩
    · rw [hv] at h
      cases h
    · have hn' : ¬ ShutOut key v c' := mt (.anti hc) hn
      rcases verdict_congr payload domain ht (iff_of_false hn hn') with hv' | ⟨hv', -⟩
      · rw [← hv', h]
        exact ⟨rfl, rfl⟩
      · rw [hv'] at h
        cases h

end

end Vault

namespace Shared
open Vault

theorem keyed_acts (name : String) (keypair : Keypair) (fs : List Feature) (as : List Act) :
    (acts ⟨build name keypair fs, [], []⟩ as).account.Keyed (lastPassphrase fs) :=
  invariant_acts (fun _ r h => h.attempt r) as (keyed_build name keypair fs)

/-- Whatever a vault was fitted with and whatever was done with it, a request comes to what these
say, also if it was to be dropped. -/
theorem signPayload_judged (name : String) (seed : Octets 32) (fs : List Feature)
    (before : List Act) (payload : Payload) (domain : Domain) (left : Option Nat) :
    let v := (acts ⟨build name ⟨seed⟩ fs, [], []⟩ before).account
    v.Judged (lastPassphrase fs) payload domain fun c =>
      (Process.signPayload (Account.name v) c payload domain).run left v := by
  intro v
  have hk : v.Keyed (lastPassphrase fs) := keyed_acts name ⟨seed⟩ fs before
  have hp := fun c => hk.perform_signPayload c payload domain
  refine judged_of_verdict (fun c => ?_) fun c => ?_
  · rw [← hp c]
    exact (run_eq_perform _ left v).1
  · rw [← hp c]
    exact (run_eq_perform _ left v).2

/-- With a record, and given a second passphrase in place of its first. -/
def rekeyed : List Feature := [.passphrase ⟨[1]⟩, .record, .passphrase ⟨[2]⟩]

theorem rekeyed_judged :
    let v := (acts ⟨build "vault" ⟨Octets.zero 32⟩ rekeyed, [], []⟩ []).account
    let r := fun c =>
      (Process.signPayload (Account.name v) c .unit ⟨Octets.zero 32⟩).run none v
    let c := fun ps => (⟨.ofSeconds 1, ps⟩ : Config)
    ((r (c [⟨[1]⟩])).ending = .finished (.error (.unlockFailed "vault" 1)) ∧
        (r (c [⟨[1]⟩])).account = v) ∧
      ∃ s, (r (c [⟨[2]⟩])).ending = .finished (.ok s) ∧
        (r (c [⟨[1]⟩, ⟨[2]⟩])).ending = .finished (.ok s) ∧
        (r (c [⟨[1]⟩, ⟨[2]⟩])).account =
          { v with signed := some [(⟨Octets.zero 32⟩, ⟨Octets.zero 32⟩)] } := by
  intro v r c
  have hj : v.Judged (lastPassphrase rekeyed) .unit ⟨Octets.zero 32⟩ r :=
    signPayload_judged "vault" (Octets.zero 32) rekeyed [] .unit ⟨Octets.zero 32⟩ none
  have hwrong : ShutOut (lastPassphrase rekeyed) v (c [⟨[1]⟩]) := by decide +kernel
  have hright : ¬ ShutOut (lastPassphrase rekeyed) v (c [⟨[2]⟩]) := by decide +kernel
  have hroot : Payload.unit.root = .ok ⟨Octets.zero 32⟩ := rfl
  have htime : ∀ ps, (c ps).timeout ≠ ⟨0⟩ := fun _ => nofun
  have hnew : ¬ v.Recorded ⟨Octets.zero 32⟩ ⟨Octets.zero 32⟩ := List.not_mem_nil
  have hrefused : (r (c [⟨[1]⟩])).ending = .finished (.error (.unlockFailed "vault" 1)) := by
    rw [hj.ending_eq, verdict, hroot]
    dsimp only
    rw [if_neg (htime _), if_pos hwrong]
    rfl
  have hsigned : (r (c [⟨[2]⟩])).ending =
      .finished (.ok (v.keypair.sign (signingDigest ⟨Octets.zero 32⟩ ⟨Octets.zero 32⟩).bytes)) := by
    rw [hj.ending_eq, verdict, hroot]
    dsimp only
    rw [if_neg (htime _), if_neg hright, if_neg hnew]
  obtain ⟨hmore, -⟩ := hj.more (c [⟨[2]⟩]) (c [⟨[1]⟩, ⟨[2]⟩]) _ rfl (by simp [c]) hsigned
  obtain ⟨root, hr, -, hv⟩ := hj.granted _ _ hmore
  cases hr
  exact ⟨⟨hrefused, hj.kept _ _ hrefused⟩, _, hsigned, hmore, hv⟩

end Shared

end Notary
