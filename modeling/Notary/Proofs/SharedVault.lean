import Notary.Proofs.VaultLock

/-! Several callers who share one account. Sessions overlap: one that is begun while another holds
the account unlocked owes no lock, and the close of one locks the account under the others. Whatever
they do, and in whatever order, an unlocked vault has somebody who is to lock it. -/

namespace Notary

/-- An account, the sessions that are open with it, and the sessions that were dropped and whose
locks have not been done yet. -/
structure Shared (σ : Type) where
  account : σ
  sessions : List Session
  handedOff : List Session

/-- What may happen next. Sessions, and locks that were handed off, go by their places. Nobody
unlocks the account but through a session. -/
inductive Move
  | begin (c : Config)
  | close (i : Nat)
  | drop (i : Nat)
  | relock (i : Nat)
  | signRoot (c : Config) (root : Root) (domain : Domain)
  | signPayload (c : Config) (payload : Payload) (domain : Domain)
  | direct (r : Request) (h : ∀ p, r ≠ .unlock p)

/-- The session that was begun, if it was. -/
def Run.opened {σ : Type} (r : Run σ (Except Error Session)) : Option Session :=
  match r.ending with
  | .finished (.ok s) => some s
  | _ => none

namespace Shared

section
variable {σ : Type} [Account σ]

/-- The account after a process that nobody drops. -/
def after {α : Type} (w : Shared σ) (p : String → Process α) : σ :=
  ((p (Account.name w.account)).run none w.account).account

def begin (w : Shared σ) (c : Config) : Shared σ :=
  let r := (Session.begin (Account.name w.account) c).run none w.account
  { w with account := r.account, sessions := w.sessions ++ r.opened.toList }

def close (w : Shared σ) (i : Nat) : Shared σ :=
  match w.sessions[i]? with
  | none => w
  | some s =>
    { w with account := w.after fun account => s.close account, sessions := w.sessions.eraseIdx i }

/-- Only a session that owes a lock hands one off. -/
def drop (w : Shared σ) (i : Nat) : Shared σ :=
  match w.sessions[i]? with
  | none => w
  | some s =>
    { w with
      sessions := w.sessions.eraseIdx i
      handedOff := w.handedOff ++ ((some s).filter Session.owesLock).toList }

def relock (w : Shared σ) (i : Nat) : Shared σ :=
  match w.handedOff[i]? with
  | none => w
  | some s =>
    { w with
      account := w.after fun account => s.handedOff account
      handedOff := w.handedOff.eraseIdx i }

def step (w : Shared σ) : Move → Shared σ
  | .begin c => w.begin c
  | .close i => w.close i
  | .drop i => w.drop i
  | .relock i => w.relock i
  | .signRoot c root domain =>
    { w with account := w.after fun account => Process.signRoot account c root domain }
  | .signPayload c payload domain =>
    { w with account := w.after fun account => Process.signPayload account c payload domain }
  | .direct r _ => { w with account := (Account.attempt r w.account).after }

def steps (w : Shared σ) (ms : List Move) : Shared σ := ms.foldl step w

end

/-- Somebody is to lock the account again: a session that has unlocked it, or whoever does a lock
that was handed off. -/
def Owed {σ : Type} (w : Shared σ) : Prop :=
  (∃ s ∈ w.sessions, s.state = .justUnlocked) ∨ w.handedOff ≠ []

theorem Owed.of_eraseIdx {σ : Type} {w : Shared σ} {i : Nat} {s : Session} (h : w.Owed)
    (hs : w.sessions[i]? = some s) (hn : s.owesLock = false) (account : σ) :
    Owed ⟨account, w.sessions.eraseIdx i, w.handedOff⟩ := by
  refine h.imp_left ?_
  rintro ⟨s', hm, hj⟩
  obtain ⟨j, hj'⟩ := List.mem_iff_getElem?.1 hm
  -- The session that goes owes nothing, so that it is another.
  have hne : j ≠ i := by
    rintro rfl
    cases hs.symm.trans hj'
    have ho : s.owesLock = true := decide_eq_true hj
    exact absurd (hn.symm.trans ho) nofun
  exact ⟨s', List.mem_eraseIdx_iff_getElem?.2 ⟨j, hne, hj'⟩, hj⟩

/-- The vault has a passphrase, and is unlocked only if a lock is owed to it. -/
structure Covered (w : Shared Vault) : Prop where
  lockable : w.account.Lockable
  owed : w.account.unlocked = true → w.Owed

section
variable {w : Shared Vault}

theorem covered_of_locked (hv : w.account.Lockable) (hl : w.account.unlocked = false) :
    w.Covered := ⟨hv, fun hu => absurd (hl.symm.trans hu) nofun⟩

theorem Covered.begin (h : w.Covered) (c : Config) : (w.begin c).Covered := by
  let r := (Session.begin (Account.name w.account) c).run none w.account
  refine ⟨h.lockable.run _ none, fun hu => ?_⟩
  rcases Vault.unlocked_begin (Account.name w.account) c h.lockable with hk | he
  · have ho := h.owed (hk.symm.trans hu)
    refine ho.imp_left ?_
    rintro ⟨s, hm, hj⟩
    exact ⟨s, List.mem_append_left _ hm, hj⟩
  · have hr : r.opened = some ⟨.justUnlocked, c.timeout⟩ := by
      unfold Run.opened
      rw [he]
    have hm : ⟨.justUnlocked, c.timeout⟩ ∈ w.sessions ++ r.opened.toList := by
      rw [hr]
      exact List.mem_append_right _ (List.mem_singleton_self _)
    exact Or.inl ⟨_, hm, rfl⟩

theorem Covered.close (h : w.Covered) (i : Nat) : (w.close i).Covered := by
  unfold Shared.close
  cases hs : w.sessions[i]? with
  | none => exact h
  | some s =>
    have hv := h.lockable.run (s.close (Account.name w.account)) none
    cases ho : s.owesLock with
    | true =>
      exact covered_of_locked hv (Vault.unlocked_close _ h.lockable ho)
    | false =>
      have hk := Vault.unlocked_close_of_unowed (Account.name w.account) w.account ho
      exact ⟨hv, fun hu => (h.owed (hk.symm.trans hu)).of_eraseIdx hs ho _⟩

theorem Covered.drop (h : w.Covered) (i : Nat) : (w.drop i).Covered := by
  unfold Shared.drop
  cases hs : w.sessions[i]? with
  | none => exact h
  | some s =>
    refine ⟨h.lockable, fun hu => ?_⟩
    cases ho : s.owesLock with
    | true =>
      have hf : (some s).filter Session.owesLock = some s := Option.filter_some_pos ho
      dsimp only
      rw [hf]
      exact Or.inr (List.append_ne_nil_of_right_ne_nil w.handedOff (List.cons_ne_nil s []))
    | false =>
      have hf : (some s).filter Session.owesLock = none :=
        Option.filter_some_neg ho
      dsimp only
      rw [hf, Option.toList_none, List.append_nil]
      exact (h.owed hu).of_eraseIdx hs ho w.account

theorem Covered.relock (h : w.Covered) (i : Nat) : (w.relock i).Covered := by
  unfold Shared.relock
  cases hs : w.handedOff[i]? with
  | none => exact h
  | some s =>
    have hv := h.lockable.run (s.handedOff (Account.name w.account)) none
    exact covered_of_locked hv (Vault.unlocked_handedOff _ h.lockable s)

theorem Covered.direct (h : w.Covered) {r : Request} (hr : ∀ p, r ≠ .unlock p) :
    (w.step (.direct r hr)).Covered := by
  have hv := (Vault.lockable_after_attempt r w.account).2 h.lockable
  by_cases hl : r = .lock
  · subst hl
    exact covered_of_locked hv (Vault.unlocked_lock h.lockable)
  · have hm : r.movesLock = false := by
      cases r with
      | unlock p => exact absurd rfl (hr p)
      | lock => exact absurd rfl hl
      | _ => rfl
    exact ⟨hv, fun hu => h.owed ((Vault.unlocked_after_attempt hm w.account).symm.trans hu)⟩

theorem Covered.step (h : w.Covered) (m : Move) : (w.step m).Covered := by
  cases m with
  | begin c => exact h.begin c
  | close i => exact h.close i
  | drop i => exact h.drop i
  | relock i => exact h.relock i
  | signRoot c root domain =>
    have hk := Vault.unlocked_signRoot (Account.name w.account) c h.lockable root domain
    exact ⟨h.lockable.run _ none, fun hu => h.owed (hk.symm.trans hu)⟩
  | signPayload c payload domain =>
    have hk := Vault.unlocked_signPayload (Account.name w.account) c h.lockable payload domain
    exact ⟨h.lockable.run _ none, fun hu => h.owed (hk.symm.trans hu)⟩
  | direct r hr => exact h.direct hr

theorem Covered.steps (h : w.Covered) (ms : List Move) : (w.steps ms).Covered := by
  induction ms generalizing w with
  | nil => exact h
  | cons m ms ih => exact ih (h.step m)

end

/-- Whatever its callers do, a vault that was locked at first is unlocked only while a lock is owed
to it. When all sessions are over and all handed-off locks are done, it is locked. -/
theorem unlocked_only_if_owed {v : Vault} (hv : v.Lockable) (hl : v.unlocked = false)
    (ms : List Move) :
    let w := steps ⟨v, [], []⟩ ms
    (w.account.unlocked = true → w.Owed) ∧
      (w.sessions = [] → w.handedOff = [] → w.account.unlocked = false) := by
  intro w
  have hw : w.Covered := (covered_of_locked hv hl : Covered ⟨v, [], []⟩).steps ms
  refine ⟨hw.owed, fun hs hh => ?_⟩
  refine Bool.eq_false_iff.2 fun hu => ?_
  rcases hw.owed hu with ⟨s, hm, -⟩ | hn
  · rw [hs] at hm
    cases hm
  · exact hn hh

/-- Locked under the passphrase `1`. -/
def entrusted : Shared Vault :=
  ⟨(Vault.ofKeypair "vault" ⟨Octets.zero 32⟩).withPassphrase ⟨[1]⟩, [], []⟩

/-- Two sessions overlap; a third is begun when the first has been closed, and dropped before the
second is closed. -/
def overlapping : List Move :=
  let c : Config := ⟨.ofSeconds 1, [⟨[0]⟩, ⟨[1]⟩]⟩
  [.begin c, .begin c, .close 0, .begin c, .drop 1]

theorem entrusted_locked :
    let w := entrusted.steps overlapping
    let w' := entrusted.steps (overlapping ++ [.close 0, .relock 0])
    entrusted.account.Lockable ∧ entrusted.account.unlocked = false ∧
      w.account.unlocked = true ∧ w.Owed ∧ w'.account.unlocked = false := by
  have hv : entrusted.account.Lockable := rfl
  have hl : entrusted.account.unlocked = false := rfl
  have hu : (entrusted.steps overlapping).account.unlocked = true := by decide +kernel
  have ho := (unlocked_only_if_owed hv hl overlapping).1 hu
  refine ⟨hv, hl, hu, ho, ?_⟩
  have hw := (unlocked_only_if_owed hv hl (overlapping ++ [.close 0, .relock 0])).2
  exact hw (by decide +kernel) (by decide +kernel)

end Shared

end Notary
