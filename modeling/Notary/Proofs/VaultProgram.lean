import Notary.Proofs.VaultCourse

/-! A process with a vault, as a function of the vault. No call to a vault waits, so that the
process comes to its end whenever it was to be dropped, and what it comes to depends on the vault
alone. Each stage of a request is worked out once, as an equation. -/

namespace Notary

theorem Outcome.toExcept_ofResult {β : Type} (result : Except AccountError β) (o : Operation)
    (t : Duration) : (ofResult result).toExcept o t = result.mapError (.failed o) := by
  cases result <;> rfl

namespace Vault
open Account Process Session

/-- What a process comes to with a vault, and the vault that it leaves. -/
def perform {α : Type} : Process α → Vault → α × Vault
  | .done a, v => (a, v)
  | .report _ next, v => perform next v
  | .probe c next, v => perform (next (v.offers c)) v
  | .call r _ _ next, v =>
    perform (next (.ofResult (Account.attempt r v).result)) (Account.attempt r v).after

section
variable {α β : Type}

theorem state_attempt (r : Request) (v : Vault) (limit : Nat) :
    (Account.attempt r v).state limit = (Account.attempt r v).after := by
  rw [Attempt.state, during_attempt, ite_self]

theorem run_eq_perform (p : Process α) (left : Option Nat) (v : Vault) :
    (p.run left v).ending = .finished (perform p v).1 ∧
      (p.run left v).account = (perform p v).2 := by
  induction p generalizing left v with
  | done a => exact ⟨rfl, rfl⟩
  | report e next ih => exact ih left v
  | probe c next ih => exact ih _ left v
  | call r limit session next ih =>
    have hs : (Account.attempt r v).wait.capped limit.milliseconds = 0 := by
      rw [wait_attempt]
      exact Nat.zero_min limit.milliseconds
    -- There is always enough time left for a call that takes none.
    have hf : left.filter (· < (Account.attempt r v).wait.capped limit.milliseconds) = none := by
      rw [hs]
      cases left <;> rfl
    unfold Process.run perform
    dsimp only
    rw [hf, outcome_attempt, state_attempt]
    exact ih _ _ _

theorem perform_bind (p : Process α) (f : α → Process β) (v : Vault) :
    perform (p >>= f) v = perform (f (perform p v).1) (perform p v).2 := by
  change perform (p.bind f) v = _
  induction p generalizing v with
  | done a => rfl
  | report e next ih => exact ih v
  | probe c next ih => exact ih _ v
  | call r limit session next ih => exact ih _ _

theorem perform_pure (a : α) (v : Vault) : perform (pure a) v = (a, v) := rfl

theorem perform_emit (e : Event) (f : Unit → Process α) (v : Vault) :
    perform (emit e >>= f) v = perform (f ()) v := rfl

theorem perform_emitAll (es : List Event) (f : Unit → Process α) (v : Vault) :
    perform (emitAll es >>= f) v = perform (f ()) v := by
  induction es with
  | nil => rfl
  | cons e es ih => exact ih

theorem perform_offers (c : Capability) (f : Bool → Process α) (v : Vault) :
    perform (Process.offers c >>= f) v = perform (f (v.offers c)) v := rfl

theorem perform_bounded (r : Request) (t : Duration) (session : Option Session)
    (f : Except CallError r.Reply → Process α) (v : Vault) :
    perform (bounded r t session >>= f) v =
      perform (f ((Account.attempt r v).result.mapError (.failed r.operation)))
        (Account.attempt r v).after := by
  rw [← Outcome.toExcept_ofResult]
  rfl

end

/-- The passphrase has the hash of the one that was set. -/
def OpensBy (v : Vault) (p : Passphrase) : Prop :=
  v.passphraseHash = some (hashPassphrase p.bytes)

instance (v : Vault) (p : Passphrase) : Decidable (v.OpensBy p) :=
  inferInstanceAs (Decidable (_ = _))

theorem unlock_of_lockable {v : Vault} (hv : v.Lockable) (p : Passphrase) :
    v.unlock p.bytes = if v.OpensBy p then ({ v with unlocked := true }, .ok ())
      else (v, .error .incorrectPassphrase) := by
  obtain ⟨hash, hh⟩ := Option.isSome_iff_exists.1 hv
  have ho : v.OpensBy p ↔ hash = hashPassphrase p.bytes := by
    rw [OpensBy, hh, Option.some_inj]
  rw [unlock_of_hash hh]
  simp only [ho]

theorem perform_relock (account : String) (t : Duration) (session : Option Session) (v : Vault) :
    perform (relock account t session) v = (.ok (), v.lock) := by
  unfold relock
  rw [perform_offers]
  cases hs : v.offers .locker with
  | true =>
    rw [if_pos rfl, perform_bounded]
    rfl
  | false =>
    have hl : v.lock = v := if_neg (Bool.eq_false_iff.1 hs)
    rw [hl]
    rfl

theorem perform_tryPassphrases {v : Vault} (hv : v.Lockable) (account : String) (t : Duration)
    (attempt : Nat) (ps : List Passphrase) :
    perform (tryPassphrases account t attempt ps) v =
      if ∃ p ∈ ps, v.OpensBy p then (.ok .justUnlocked, { v with unlocked := true })
      else (.error (.unlockFailed account (attempt + ps.length)), v) := by
  -- Along the list: a passphrase that does not open the vault leaves it as it was for the next one.
  induction ps generalizing attempt with
  | nil => simp [tryPassphrases, perform_pure]
  | cons p ps ih =>
    unfold tryPassphrases
    rw [perform_bounded]
    have hu : Account.attempt (.unlock p.bytes) v =
      .immediate [] (v.unlock p.bytes).1 (v.unlock p.bytes).2 := rfl
    rw [hu, unlock_of_lockable hv]
    by_cases ho : v.OpensBy p
    · have hp : ∃ q ∈ p :: ps, v.OpensBy q := ⟨p, List.mem_cons_self, ho⟩
      rw [if_pos ho, if_pos hp]
      rfl
    · rw [if_neg ho]
      have hp : (∃ q ∈ p :: ps, v.OpensBy q) ↔ ∃ q ∈ ps, v.OpensBy q := by
        simp [ho]
      have hn : attempt + (p :: ps).length = attempt + 1 + ps.length := by
        rw [List.length_cons]
        omega
      simp only [hp, hn]
      exact ih (attempt + 1)

/-- The vault is locked, and no passphrase of the configuration opens it. -/
def Shut (v : Vault) (c : Config) : Prop :=
  v.Lockable ∧ v.unlocked = false ∧ ∀ p ∈ c.passphrases, ¬ v.OpensBy p

instance (v : Vault) (c : Config) : Decidable (v.Shut c) :=
  inferInstanceAs (Decidable (_ = true ∧ _ = false ∧ ∀ p ∈ c.passphrases, ¬ v.OpensBy p))

/-- How the vault comes to be usable, if it does. -/
def unlockState (v : Vault) : UnlockState :=
  if v.passphraseHash.isSome then if v.unlocked then .alreadyUnlocked else .justUnlocked
  else .notLockable

section
variable (account : String) (c : Config) (v : Vault)

theorem perform_unlock :
    perform (Session.unlock account c) v =
      if v.Shut c then (.error (.unlockFailed account c.passphrases.length), v)
      else (.ok v.unlockState, v.opened) := by
  unfold Session.unlock
  rw [perform_offers]
  cases hs : v.passphraseHash.isSome with
  | false =>
    have ho : v.opened = v := opened_of_unlocked fun hv => absurd (hs.symm.trans hv) nofun
    have hn : ¬ v.Shut c := fun h => absurd (hs.symm.trans h.1) nofun
    have hl : v.offers .locker = false := hs
    rw [if_neg hn, ho, unlockState, hs, hl]
    rfl
  | true =>
    have hv : v.Lockable := hs
    have hl : v.offers .locker = true := hs
    have hq : Account.attempt .isUnlocked v = .immediate [] v (.ok v.unlocked) := rfl
    rw [hl, if_pos rfl, perform_bounded, hq, unlockState, hs]
    cases hu : v.unlocked with
    | true =>
      have ho : v.opened = v := opened_of_unlocked fun _ => hu
      have hn : ¬ v.Shut c := fun h => absurd (hu.symm.trans h.2.1) nofun
      rw [if_neg hn, ho]
      rfl
    | false =>
      change perform (tryPassphrases account c.timeout 0 c.passphrases) v = _
      rw [perform_tryPassphrases hv, Nat.zero_add, opened_of_lockable hv]
      by_cases hp : ∃ p ∈ c.passphrases, v.OpensBy p
      · have hn : ¬ v.Shut c := by
          rintro ⟨-, -, h⟩
          obtain ⟨p, hm, ho⟩ := hp
          exact h p hm ho
        rw [if_pos hp, if_neg hn]
        rfl
      · have hn : v.Shut c := ⟨hv, hu, fun p hm ho => hp ⟨p, hm, ho⟩⟩
        rw [if_neg hp, if_pos hn]

theorem perform_begin :
    perform (Session.begin account c) v =
      if v.Shut c then (.error (.unlockFailed account c.passphrases.length), v)
      else (.ok ⟨v.unlockState, c.timeout⟩, v.opened) := by
  unfold Session.begin
  rw [perform_bind, perform_unlock]
  by_cases hs : v.Shut c
  · rw [if_pos hs, if_pos hs]
    rfl
  · rw [if_neg hs, if_neg hs]
    rfl

theorem perform_close (s : Session) :
    perform (s.close account) v = (.ok (), if s.owesLock then v.lock else v) := by
  unfold Session.close
  split
  · exact perform_relock account s.timeout (some s) v
  · rfl

theorem perform_dispatch (s : Session) {order : Order} (h : v.offers order.capability = true) :
    perform (dispatch account s order) v =
      ((v.carryOut order).2.mapError .signing, (v.carryOut order).1) := by
  have hm : ∀ result : Except AccountError Signature,
      (result.mapError (CallError.failed .sign)).mapError (CallError.toError .signing) =
        result.mapError .signing := by
    intro result
    cases result <;> rfl
  unfold dispatch
  rw [perform_offers, h, if_pos rfl, perform_emit]
  cases order with
  | ofRoot root domain =>
    change perform (bounded (.signGeneric root domain) s.timeout (some s) >>= _) v = _
    rw [perform_bounded]
    exact congrArg (·, _) (hm _)
  | ofDigest digest =>
    change perform (bounded (.sign digest) s.timeout (some s) >>= _) v = _
    rw [perform_bounded]
    exact congrArg (·, _) (hm _)

/-- The close gives the vault back with its lock as it was found. -/
theorem lock_carryOut_opened (order : Order) (t : Duration) :
    (if Session.owesLock ⟨v.unlockState, t⟩ then (v.opened.carryOut order).1.lock
      else (v.opened.carryOut order).1) =
        { (v.opened.carryOut order).1 with unlocked := v.unlocked } := by
  obtain ⟨signed, hc⟩ := carryOut_fst v.opened order
  rw [hc, unlockState]
  cases hs : v.passphraseHash.isSome with
  | false =>
    simp [Session.owesLock, opened, hs]
  | true =>
    cases hu : v.unlocked with
    | true => simp [Session.owesLock, opened, hs, hu]
    | false => simp [Session.owesLock, opened, lock, hs, hu]

theorem perform_signInSession {order : Order} (h : v.offers order.capability = true) :
    perform (signInSession account c order) v =
      if v.Shut c then (.error (.unlockFailed account c.passphrases.length), v)
      else ((v.opened.carryOut order).2.mapError .signing,
        { (v.opened.carryOut order).1 with unlocked := v.unlocked }) := by
  unfold signInSession
  rw [perform_bind, perform_begin]
  by_cases hs : v.Shut c
  · rw [if_pos hs, if_pos hs]
    rfl
  · have ho : v.opened.offers order.capability = true := (offers_opened v order.capability).trans h
    rw [if_neg hs, if_neg hs]
    dsimp only
    rw [perform_bind, perform_dispatch account _ _ ho, perform_bind, perform_close]
    exact congrArg (_, ·) (lock_carryOut_opened v order c.timeout)

theorem perform_signRoot (root : Root) (domain : Domain) :
    perform (signRoot account c root domain) v =
      if c.timeout = ⟨0⟩ then (.error .zeroTimeout, v)
      else if v.Shut c then (.error (.unlockFailed account c.passphrases.length), v)
      else ((v.opened.carryOut (v.order root domain)).2.mapError .signing,
        { (v.opened.carryOut (v.order root domain)).1 with unlocked := v.unlocked }) := by
  unfold signRoot
  by_cases ht : c.timeout = ⟨0⟩
  · rw [Config.validate_eq_error_iff.2 ⟨ht, rfl⟩, if_pos ht]
    rfl
  · rw [Config.validate_eq_ok_iff.2 ht, if_neg ht]
    dsimp only
    rw [perform_bind]
    change perform (if v.signed.isSome then _ else _) v = _
    cases hs : v.signed.isSome with
    | true =>
      have ho : v.order root domain = .ofRoot root domain := if_pos hs
      rw [ho]
      exact perform_signInSession account c v hs
    | false =>
      have ho : v.order root domain = .ofDigest (signingDigest root domain) :=
        if_neg (Bool.eq_false_iff.1 hs)
      rw [ho, if_neg Bool.false_ne_true, perform_emitAll]
      exact perform_signInSession account c v rfl

end

end Vault

end Notary
