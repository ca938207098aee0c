import Notary.Proofs.SharedVault
import Notary.Proofs.VaultCourse

/-! Histories of a vault: requests, sessions and calls of any callers, in any order, with unlocks
from outside among them. What no call changes, no history changes; and only a request for a
signature touches the replay record. -/

namespace Notary

/-- A move, or an unlock from outside, which no session answers for. -/
inductive Act
  | move (m : Move)
  | unlock (passphrase : List UInt8)

namespace Shared

theorem account_drop {σ : Type} (w : Shared σ) (i : Nat) : (w.drop i).account = w.account := by
  unfold drop
  cases w.sessions[i]? <;> rfl

section
variable {σ : Type} [Account σ]

def act (w : Shared σ) : Act → Shared σ
  | .move m => w.step m
  | .unlock p => { w with account := (Account.attempt (.unlock p) w.account).after }

def acts (w : Shared σ) (as : List Act) : Shared σ := as.foldl act w

theorem account_close (w : Shared σ) (i : Nat) :
    (w.close i).account = w.sessions[i]?.elim w.account fun s =>
      w.after fun account => s.close account := by
  unfold close
  cases w.sessions[i]? <;> rfl

theorem account_relock (w : Shared σ) (i : Nat) :
    (w.relock i).account = w.handedOff[i]?.elim w.account fun s =>
      w.after fun account => s.handedOff account := by
  unfold relock
  cases w.handedOff[i]? <;> rfl

end
end Shared

namespace Vault
open Account Process Session
variable {v v' : Vault} {xs : List Exchange}

theorem invariant_passes {I : Vault → Prop} (step : ∀ v r, I v → I (Account.attempt r v).after)
    (hp : Passes v xs v') (hv : I v) : I v' := by
  refine hp.invariant (fun v x hv => ?_) hv
  cases x with
  | answer c offered => exact hv
  | call k =>
    rw [next_call]
    exact step v k.request hv

theorem invariant_run {α : Type} {I : Vault → Prop}
    (step : ∀ v r, I v → I (Account.attempt r v).after) (p : Process α) (left : Option Nat)
    (hv : I v) : I (p.run left v).account := invariant_passes step (run_passes p left v) hv

theorem keypair_after_attempt (r : Request) (v : Vault) :
    (Account.attempt r v).after.keypair = v.keypair := by
  obtain ⟨unlocked, signed, ha, -⟩ := after_attempt r v
  rw [ha]

theorem signed_after_attempt {r : Request} (hr : r.signs = false) (v : Vault) :
    (Account.attempt r v).after.signed = v.signed := by
  cases r with
  | isUnlocked => rfl
  | unlock p =>
    change (v.unlock p).1.signed = v.signed
    rw [unlock_fst]
  | lock =>
    change v.lock.signed = v.signed
    rw [lock_eq]
  | sign digest => cases hr
  | signGeneric root domain => cases hr

theorem signed_passes (hx : ∀ x ∈ xs, x.Apart) (hp : Passes v xs v') : v'.signed = v.signed := by
  induction xs generalizing v with
  | nil => exact hp ▸ rfl
  | cons x xs ih =>
    obtain ⟨h, hxs⟩ := List.forall_mem_cons.1 hx
    rw [ih hxs hp.2]
    cases x with
    | answer c offered => rfl
    | call k =>
      rw [next_call]
      exact signed_after_attempt h v

section
variable (account : String) (v : Vault)

theorem signed_begin (c : Config) :
    ((Session.begin account c).run none v).account.signed = v.signed := by
  obtain ⟨result, -, hx⟩ := run_none_leads (Session.begin account c) v
  obtain ⟨e, hu, -⟩ := leads_begin hx
  exact signed_passes hu.apart (run_passes _ none v)

theorem signed_close (s : Session) :
    ((s.close account).run none v).account.signed = v.signed := by
  unfold Session.close
  split
  · obtain ⟨lock, -, hx⟩ := run_none_leads (relock account s.timeout (some s)) v
    exact signed_passes (leads_relock hx).apart (run_passes _ none v)
  · rfl

theorem signed_handedOff (s : Session) :
    ((s.handedOff account).run none v).account.signed = v.signed := by
  obtain ⟨u, -, hx⟩ := run_none_leads (s.handedOff account) v
  obtain ⟨e, hl, -⟩ := leads_relockReporting hx
  exact signed_passes hl.apart (run_passes _ none v)

end

end Vault

namespace Shared
open Vault
variable {w : Shared Vault}

theorem invariant_act {I : Vault → Prop} (step : ∀ v r, I v → I (Account.attempt r v).after)
    (a : Act) (h : I w.account) : I (w.act a).account := by
  cases a with
  | unlock p => exact step _ _ h
  | move m =>
    cases m with
    | begin c => exact invariant_run step _ none h
    | close i =>
      change I (w.close i).account
      rw [account_close]
      cases w.sessions[i]? with
      | none => exact h
      | some s => exact invariant_run step _ none h
    | drop i =>
      change I (w.drop i).account
      rw [account_drop]
      exact h
    | relock i =>
      change I (w.relock i).account
      rw [account_relock]
      cases w.handedOff[i]? with
      | none => exact h
      | some s => exact invariant_run step _ none h
    | signRoot c root domain => exact invariant_run step _ none h
    | signPayload c payload domain => exact invariant_run step _ none h
    | direct r hr => exact step _ _ h

/-- What no call to a vault changes, no history of it changes. -/
theorem invariant_acts {I : Vault → Prop} (step : ∀ v r, I v → I (Account.attempt r v).after)
    (as : List Act) (h : I w.account) : I (w.acts as).account := by
  induction as generalizing w with
  | nil => exact h
  | cons a as ih => exact ih (invariant_act step a h)

theorem keypair_acts (w : Shared Vault) (as : List Act) :
    (w.acts as).account.keypair = w.account.keypair :=
  invariant_acts (I := fun v => v.keypair = w.account.keypair)
    (fun v r h => (keypair_after_attempt r v).trans h) as rfl

end Shared

end Notary
