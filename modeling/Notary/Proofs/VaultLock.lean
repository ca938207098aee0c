import Notary.Proofs.LockTrace
import Notary.Vault

/-! How the lock of a vault moves. Its calls are over at once, so that none is given up on and none
is ever dropped half way. A vault with a passphrase that is found locked is therefore left locked by
a request, and unlocked by the beginning of a session only if the session owes it the lock. -/

namespace Notary

namespace Vault
open Account Process Session

/-- A passphrase has been set: the vault can be unlocked and locked. -/
def Lockable (v : Vault) : Prop := v.passphraseHash.isSome = true

theorem attempt_immediate (r : Request) (v : Vault) :
    ∃ events after result, Account.attempt r v = .immediate events after result := by
  cases r with
  | signGeneric root domain =>
    change ∃ events after result, attempt (.signGeneric root domain) v = _
    unfold attempt
    dsimp only
    split <;> exact ⟨_, _, _, rfl⟩
  | _ => exact ⟨_, _, _, rfl⟩

theorem wait_attempt (r : Request) (v : Vault) : (Account.attempt r v).wait = .lasting 0 := by
  obtain ⟨events, after, result, h⟩ := attempt_immediate r v
  rw [h, Attempt.immediate]

theorem during_attempt (r : Request) (v : Vault) :
    (Account.attempt r v).during = (Account.attempt r v).after := by
  obtain ⟨events, after, result, h⟩ := attempt_immediate r v
  rw [h, Attempt.immediate]

theorem outcome_attempt (r : Request) (v : Vault) (limit : Nat) :
    (Account.attempt r v).outcome limit = .ofResult (Account.attempt r v).result := by
  rw [Attempt.outcome, wait_attempt]
  exact if_pos (decide_eq_true (Nat.zero_le limit))

theorem next_call (v : Vault) (k : Call) :
    (Exchange.call k).next v = (Account.attempt k.request v).after := by
  obtain ⟨r, limit, w, o⟩ := k
  cases o with
  | none => exact during_attempt r v
  | some o =>
    change (Account.attempt r v).state limit.milliseconds = _
    rw [Attempt.state, during_attempt, ite_self]

/-- No call to a vault is ever given up on. -/
theorem not_expired {v : Vault} {r : Request} {t : Duration} {w : Wait} :
    ¬ (Exchange.ended r t w .expired).Holds v := by
  rintro ⟨-, ho⟩
  rw [outcome_attempt] at ho
  exact Outcome.ofResult_ne_expired ho

theorem result_of_returned {v : Vault} {r : Request} {t : Duration} {w : Wait} {b : r.Reply}
    (h : (Exchange.ended r t w (.returned b)).Holds v) : (Account.attempt r v).result = .ok b := by
  have ho := h.2
  rw [outcome_attempt] at ho
  exact Outcome.ofResult_eq_returned_iff.1 ho

theorem result_of_refused {v : Vault} {r : Request} {t : Duration} {w : Wait} {e : AccountError}
    (h : (Exchange.ended r t w (.refused e)).Holds v) :
    (Account.attempt r v).result = .error e := by
  have ho := h.2
  rw [outcome_attempt] at ho
  exact Outcome.ofResult_eq_refused_iff.1 ho

/-- Signing enters a pair into the replay record and changes nothing else. -/
theorem record_ok {v v' : Vault} {root : Root} {domain : Domain}
    (h : v.record root domain = .ok v') : ∃ signed, v' = { v with signed } := by
  unfold record at h
  split at h
  · split at h
    · cases h
    · split at h
      · cases h
      · cases h
        exact ⟨_, rfl⟩
  · cases h

/-- What a call can change. -/
theorem after_attempt (r : Request) (v : Vault) :
    ∃ unlocked signed, (Account.attempt r v).after = { v with unlocked, signed } ∧
      (r.movesLock = false → unlocked = v.unlocked) := by
  cases r with
  | isUnlocked => exact ⟨v.unlocked, v.signed, rfl, fun _ => rfl⟩
  | unlock p => exact ⟨_, v.signed, unlock_fst v p, nofun⟩
  | lock => exact ⟨_, v.signed, lock_eq v, nofun⟩
  | sign digest => exact ⟨v.unlocked, v.signed, rfl, fun _ => rfl⟩
  | signGeneric root domain =>
    change ∃ unlocked signed, (attempt (.signGeneric root domain) v).after = _ ∧ _
    unfold attempt
    dsimp only
    split
    · exact ⟨v.unlocked, v.signed, rfl, fun _ => rfl⟩
    · rename_i v' hr
      obtain ⟨signed, rfl⟩ := record_ok hr
      exact ⟨v.unlocked, signed, rfl, fun _ => rfl⟩

theorem lockable_after_attempt (r : Request) (v : Vault) :
    (Account.attempt r v).after.Lockable ↔ v.Lockable := by
  obtain ⟨unlocked, signed, ha, -⟩ := after_attempt r v
  rw [ha]
  exact Iff.rfl

theorem unlocked_after_attempt {r : Request} (hr : r.movesLock = false) (v : Vault) :
    (Account.attempt r v).after.unlocked = v.unlocked := by
  obtain ⟨unlocked, signed, ha, hu⟩ := after_attempt r v
  rw [ha]
  exact hu hr

theorem unlocked_lock {v : Vault} (h : v.Lockable) : v.lock.unlocked = false := by
  have hl : v.lock = { v with unlocked := false } := if_pos h
  rw [hl]

/-- A call that is refused leaves the vault as it was. -/
theorem unlock_of_error {v : Vault} {p : List UInt8} {e : AccountError}
    (h : (v.unlock p).2 = .error e) : (v.unlock p).1 = v := by
  unfold unlock at h ⊢
  split
  · rfl
  · split
    · rename_i h₁ h₂
      simp only [h₁, h₂, if_true] at h
      cases h
    · rfl

variable {v v' : Vault} {xs : List Exchange}

theorem Lockable.passes (h : v.Lockable) (hp : Passes v xs v') : v'.Lockable := by
  refine hp.invariant (fun v x hv => ?_) h
  cases x with
  | answer c offered => exact hv
  | call k =>
    rw [next_call]
    exact (lockable_after_attempt k.request v).2 hv

theorem Lockable.run {α : Type} (h : v.Lockable) (p : Process α) (left : Option Nat) :
    (p.run left v).account.Lockable := h.passes (run_passes p left v)

/-- A vault with a passphrase offers to be locked, always. -/
theorem Lockable.offers (h : v.Lockable) {offered : Bool}
    (ha : (Exchange.answer .locker offered).Holds v) : offered = true := ha.symm.trans h

theorem unlocked_passes (hx : ∀ x ∈ xs, x.SparesLock) (hp : Passes v xs v') :
    v'.unlocked = v.unlocked := by
  induction xs generalizing v with
  | nil => exact hp ▸ rfl
  | cons x xs ih =>
    obtain ⟨h, hxs⟩ := List.forall_mem_cons.1 hx
    rw [ih hxs hp.2]
    cases x with
    | answer c offered => rfl
    | call k =>
      rw [next_call]
      exact unlocked_after_attempt (h k rfl) v

/-- Wrong passphrases leave the vault as it was. -/
theorem eq_of_refused {t : Duration} {ps : List Passphrase} (h : Refused t ps xs)
    (hp : Passes v xs v') : v' = v := by
  induction h generalizing v with
  | nil => exact hp.symm
  | cons p w e h ih =>
    rw [ih hp.2]
    have hn : (Exchange.ended (.unlock p.bytes) t w (.refused e)).next v = (v.unlock p.bytes).1 :=
      next_call v ⟨.unlock p.bytes, t, w, some (.refused e)⟩
    rw [hn]
    exact unlock_of_error (result_of_refused hp.1)

theorem unlocked_relocking {t : Duration} {session : Option Session}
    {lock : Except CallError Unit} (hv : v.Lockable)
    (h : Relocking t session xs (.finished lock)) (hp : Passes v xs v') : v'.unlocked = false := by
  cases h with
  | withdrawn => exact absurd (hv.offers hp.1) nofun
  | ended w o =>
    obtain ⟨-, -, rfl⟩ := hp
    have hn : (Exchange.ended .lock t w o).next v = v.lock := next_call v ⟨.lock, t, w, some o⟩
    exact (congrArg unlocked hn).trans (unlocked_lock hv)

theorem unlocked_queried {t : Duration} {w : Wait} {o : Outcome Bool}
    (hp : Passes v [.answer .locker true, .ended .isUnlocked t w o] v') :
    v'.unlocked = v.unlocked := by
  have ha := Exchange.sparesLock_answer .locker true
  have hq := Exchange.sparesLock_isUnlocked t w (some o)
  have hx := List.forall_mem_cons.2 ⟨ha, List.forall_mem_singleton.2 hq⟩
  exact unlocked_passes hx hp

/-- To begin a session is to find the vault locked, unlock it and owe it the lock; or to leave it as
it was, whatever comes of it. -/
theorem unlocked_unlocking {account : String} {c : Config} {result : Except Error UnlockState}
    (hv : v.Lockable) (h : Unlocking account c xs (.finished result)) (hp : Passes v xs v') :
    v.unlocked = false ∧ result = .ok .justUnlocked ∨
      v'.unlocked = v.unlocked ∧ result ≠ .ok .justUnlocked := by
  cases h with
  | notLockable => exact absurd (hv.offers hp.1) nofun
  | queryRefused w e => exact Or.inr ⟨unlocked_queried hp, nofun⟩
  | queryExpired w => exact absurd hp.2.1 not_expired
  | alreadyUnlocked w => exact Or.inr ⟨unlocked_queried hp, nofun⟩
  | @locked xs _ w h =>
    have hq : v.unlocked = false := Except.ok.inj (result_of_returned hp.2.1)
    cases h with
    | exhausted h =>
      have h₂ : Passes v [_, _] _ := ⟨hp.1, hp.2.1, rfl⟩
      have he := eq_of_refused h hp.2.2
      exact Or.inr ⟨(congrArg unlocked he).trans (unlocked_queried h₂), nofun⟩
    | unlocked w' hps h => exact Or.inl ⟨hq, rfl⟩
    | @expired qs rest p xs ys lock _ w' hps h hl he =>
      obtain ⟨v₁, -, h₂⟩ := passes_append.1 hp.2.2
      exact absurd h₂.1 not_expired

variable {account : String} {c : Config}

theorem unlocked_signing {s : Session} {order : Order} {outcome : Except Error Signature}
    (h : Signing account s order xs (.finished outcome)) (hp : Passes v xs v') :
    v'.unlocked = v.unlocked := unlocked_passes (fun x hm => (h.sparesLock x hm).1) hp

/-- A request that unlocks the vault locks it again, so that it is left as it was found. -/
theorem unlocked_inSession {order : Order} {result : Except Error Signature} (hv : v.Lockable)
    (h : InSession account c order xs (.finished result)) (hp : Passes v xs v') :
    v'.unlocked = v.unlocked := by
  cases h with
  | refused h =>
    rcases unlocked_unlocking hv h hp with ⟨-, he⟩ | ⟨hu, -⟩
    · cases he
    · exact hu
  | unowed h hs hg =>
    obtain ⟨v₁, h₁, h₂⟩ := passes_append.1 hp
    rcases unlocked_unlocking hv h h₁ with ⟨-, he⟩ | ⟨hu, -⟩
    · cases he
      exact absurd rfl hs
    · exact (unlocked_signing hg h₂).trans hu
  | owed h hg hl he =>
    obtain ⟨v₂, h₁₂, h₃⟩ := passes_append.1 hp
    obtain ⟨v₁, h₁, -⟩ := passes_append.1 h₁₂
    obtain ⟨lock, rfl, -⟩ := Ending.finished_eq_map_iff.1 he
    rcases unlocked_unlocking hv h h₁ with ⟨hu, -⟩ | ⟨-, hn⟩
    · exact (unlocked_relocking (hv.passes h₁₂) hl h₃).trans hu.symm
    · exact absurd rfl hn

theorem unlocked_ofRoot {root : Root} {domain : Domain} {result : Except Error Signature}
    (hv : v.Lockable) (h : OfRoot account c root domain xs (.finished result))
    (hp : Passes v xs v') : v'.unlocked = v.unlocked := by
  cases h with
  | zeroTimeout h => exact hp ▸ rfl
  | incapable h l => exact hp.2.2.2 ▸ rfl
  | protecting h l g hi => exact unlocked_inSession hv hi hp.2.2.2
  | plain h l hi => exact unlocked_inSession hv hi hp.2.2.2

section
variable (account : String) (c : Config)

theorem unlocked_signRoot (hv : v.Lockable) (root : Root) (domain : Domain) :
    ((signRoot account c root domain).run none v).account.unlocked = v.unlocked := by
  have hp := run_passes (signRoot account c root domain) none v
  obtain ⟨result, -, hx⟩ := run_none_leads (signRoot account c root domain) v
  exact unlocked_ofRoot hv (leads_signRoot hx) hp

theorem unlocked_signPayload (hv : v.Lockable) (payload : Payload) (domain : Domain) :
    ((signPayload account c payload domain).run none v).account.unlocked = v.unlocked := by
  unfold signPayload
  cases payload.root with
  | error e => rfl
  | ok root => exact unlocked_signRoot account c hv root domain

theorem unlocked_relock (hv : v.Lockable) (t : Duration) (session : Option Session) :
    ((relock account t session).run none v).account.unlocked = false := by
  have hp := run_passes (relock account t session) none v
  obtain ⟨lock, -, hx⟩ := run_none_leads (relock account t session) v
  exact unlocked_relocking hv (leads_relock hx) hp

theorem unlocked_close (hv : v.Lockable) {s : Session} (h : s.owesLock = true) :
    ((s.close account).run none v).account.unlocked = false := by
  have hc : s.close account = relock account s.timeout (some s) := if_pos h
  rw [hc]
  exact unlocked_relock account hv s.timeout (some s)

theorem unlocked_close_of_unowed (v : Vault) {s : Session} (h : s.owesLock = false) :
    ((s.close account).run none v).account.unlocked = v.unlocked := by
  have hc : s.close account = pure (.ok ()) := if_neg (Bool.eq_false_iff.1 h)
  rw [hc]
  rfl

/-- A lock that was handed off locks the vault. -/
theorem unlocked_handedOff (hv : v.Lockable) (s : Session) :
    ((handedOff account s).run none v).account.unlocked = false := by
  have hp := run_passes (handedOff account s) none v
  obtain ⟨u, -, hx⟩ := run_none_leads (handedOff account s) v
  obtain ⟨e, hl, he⟩ := leads_relockReporting hx
  obtain ⟨lock, rfl, -⟩ := Ending.finished_eq_map_iff.1 he
  exact unlocked_relocking hv hl hp

/-- A session that was begun owes the lock if the vault is unlocked and was not before. -/
theorem unlocked_begin (hv : v.Lockable) :
    let r := (Session.begin account c).run none v
    r.account.unlocked = v.unlocked ∨ r.ending = .finished (.ok ⟨.justUnlocked, c.timeout⟩) := by
  have hp := run_passes (Session.begin account c) none v
  obtain ⟨result, he, hx⟩ := run_none_leads (Session.begin account c) v
  obtain ⟨e, hu, hr⟩ := leads_begin hx
  obtain ⟨opened, rfl, rfl⟩ := Ending.finished_eq_map_iff.1 hr
  rcases unlocked_unlocking hv hu hp with ⟨-, ho⟩ | ⟨hu, -⟩
  · exact Or.inr (he.trans (by rw [ho]; rfl))
  · exact Or.inl hu

end

end Vault

end Notary
