import Notary.Proofs.SessionTrace
import Notary.Scripted

/-! How the lock of an account that follows a script moves. Only a call to unlock or to lock moves
it, and only if the call does its work: it must not be one that fails, and must either work before
it waits or be waited for. -/

namespace Notary

theorem takeEntry_of_ne_nil {α : Type} (fallback : α) {xs : List α} (h : xs ≠ []) :
    (takeEntry fallback xs).1 ∈ xs ∧ (takeEntry fallback xs).2 ≠ [] ∧
      ∀ a ∈ (takeEntry fallback xs).2, a ∈ xs := by
  cases xs with
  | nil => exact absurd rfl h
  | cons a rest =>
    cases rest with
    | nil => simp [takeEntry]
    | cons b rest => exact ⟨List.mem_cons_self, List.cons_ne_nil b rest, fun _ => .tail a⟩

/-- The calls that can move the lock. -/
def Request.movesLock : Request → Bool
  | unlock _ | lock => true
  | _ => false

namespace Behaviour
variable {σ β : Type}

/-- What a call that is given up on has done by then. -/
def worksAtOnce (b : Behaviour) : Bool := b.failure.isNone && b.worksFirst

theorem during_attempt (b : Behaviour) (s : σ) (work : Work σ β) :
    (b.attempt s work).during = if b.worksAtOnce then work.1 else s := by
  obtain ⟨wait, worksFirst, failure⟩ := b
  cases worksFirst <;> cases failure <;> rfl

theorem after_attempt (b : Behaviour) (s : σ) (work : Work σ β) :
    (b.attempt s work).after = if b.failure.isNone then work.1 else s := by
  obtain ⟨wait, worksFirst, failure⟩ := b
  cases worksFirst <;> cases failure <;> rfl

theorem result_attempt (b : Behaviour) (s : σ) (work : Work σ β) :
    (b.attempt s work).result = b.failure.elim work.2.2 .error := by
  obtain ⟨wait, worksFirst, failure⟩ := b
  cases worksFirst <;> cases failure <;> rfl

end Behaviour

namespace Outcome
variable {β : Type}

theorem ofResult_eq_returned_iff {r : Except AccountError β} {b : β} :
    ofResult r = returned b ↔ r = .ok b := by
  cases r <;> simp [ofResult]

theorem ofResult_eq_refused_iff {r : Except AccountError β} {e : AccountError} :
    ofResult r = refused e ↔ r = .error e := by
  cases r <;> simp [ofResult]

theorem ofResult_ne_expired {r : Except AccountError β} : ofResult r ≠ expired := by
  cases r <;> simp [ofResult]

end Outcome

namespace Attempt
variable {σ β : Type} {a : Attempt σ β} {limit : Nat}

theorem outcome_eq_returned_iff {b : β} :
    a.outcome limit = .returned b ↔ a.wait.within limit = true ∧ a.result = .ok b := by
  unfold outcome
  split <;> simp_all [Outcome.ofResult_eq_returned_iff]

theorem outcome_eq_refused_iff {e : AccountError} :
    a.outcome limit = .refused e ↔ a.wait.within limit = true ∧ a.result = .error e := by
  unfold outcome
  split <;> simp_all [Outcome.ofResult_eq_refused_iff]

theorem outcome_eq_expired_iff : a.outcome limit = .expired ↔ a.wait.within limit = false := by
  unfold outcome
  split <;> simp_all [Outcome.ofResult_ne_expired]

end Attempt

namespace Scripted
open Account

/-- Whenever it is asked, the account offers to be locked and unlocked. -/
def OffersLocker (s : Scripted) : Prop :=
  s.offering .locker ≠ [] ∧ ∀ offered ∈ s.offering .locker, offered = true

/-- How the next call of this kind will go. -/
def due (s : Scripted) (o : Operation) : Behaviour := (takeEntry .plain (s.behaving o)).1

/-- The account once the next behaviour has been taken from its script. -/
def taken (s : Scripted) (o : Operation) : Scripted := (s.takeBehaviour o).2

theorem attempt_eq (r : Request) (s : Scripted) :
    Account.attempt r s
      = (s.due r.operation).attempt (s.taken r.operation) (work r (s.taken r.operation)) := rfl

theorem work_unlock_self (s : Scripted) :
    work (.unlock s.passphrase) s = ({ s with unlocked := true }, [], .ok ()) := if_pos rfl

theorem work_unlock_of_ne {s : Scripted} {p : List UInt8} (h : p ≠ s.passphrase) :
    work (.unlock p) s = (s, [], .error .incorrectPassphrase) := if_neg h

theorem during_attempt (r : Request) (s : Scripted) :
    (Account.attempt r s).during =
      if (s.due r.operation).worksAtOnce then (work r (s.taken r.operation)).1
      else s.taken r.operation := by
  rw [attempt_eq, Behaviour.during_attempt]

theorem next_pending (s : Scripted) (r : Request) (t : Duration) (w : Wait) :
    (Exchange.pending r t w).next s =
      if (s.due r.operation).worksAtOnce then (work r (s.taken r.operation)).1
      else s.taken r.operation := during_attempt r s

section
variable {s : Scripted} {r : Request} {t : Duration} {w : Wait}

theorem next_expired (h : (Exchange.ended r t w .expired).Holds s) :
    (Exchange.ended r t w .expired).next s =
      if (s.due r.operation).worksAtOnce then (work r (s.taken r.operation)).1
      else s.taken r.operation := by
  have hw : (Account.attempt r s).wait.within t.milliseconds = false :=
    Attempt.outcome_eq_expired_iff.1 h.2
  change (Account.attempt r s).state t.milliseconds = _
  rw [Attempt.state, hw]
  exact during_attempt r s

theorem next_returned {b : r.Reply} (h : (Exchange.ended r t w (.returned b)).Holds s) :
    (Exchange.ended r t w (.returned b)).next s = (work r (s.taken r.operation)).1 ∧
      (work r (s.taken r.operation)).2.2 = .ok b := by
  obtain ⟨hw, hr⟩ := Attempt.outcome_eq_returned_iff.1 h.2
  change (Account.attempt r s).state t.milliseconds = _ ∧ _
  rw [Attempt.state, if_pos hw, attempt_eq, Behaviour.after_attempt]
  rw [attempt_eq, Behaviour.result_attempt] at hr
  cases hf : (s.due r.operation).failure with
  | none => exact ⟨rfl, by simpa [hf] using hr⟩
  | some e => simp [hf] at hr

/-- A call that is refused fails on purpose, or its work does. -/
theorem next_refused {e : AccountError} (h : (Exchange.ended r t w (.refused e)).Holds s) :
    (Exchange.ended r t w (.refused e)).next s = s.taken r.operation ∨
      (Exchange.ended r t w (.refused e)).next s = (work r (s.taken r.operation)).1 ∧
        (work r (s.taken r.operation)).2.2 = .error e := by
  obtain ⟨hw, hr⟩ := Attempt.outcome_eq_refused_iff.1 h.2
  change (Account.attempt r s).state t.milliseconds = _ ∨
    (Account.attempt r s).state t.milliseconds = _ ∧ _
  rw [Attempt.state, if_pos hw, attempt_eq, Behaviour.after_attempt]
  rw [attempt_eq, Behaviour.result_attempt] at hr
  cases hf : (s.due r.operation).failure with
  | none => exact Or.inr ⟨rfl, by simpa [hf] using hr⟩
  | some e => exact Or.inl rfl

end

/-- A call takes its behaviour from the script and does its work or does not. -/
theorem next_call (s : Scripted) (k : Call) :
    (Exchange.call k).next s = s.taken k.request.operation ∨
      (Exchange.call k).next s = (work k.request (s.taken k.request.operation)).1 := by
  obtain ⟨r, t, w, o⟩ := k
  have hd : (Account.attempt r s).during = s.taken r.operation ∨
      (Account.attempt r s).during = (work r (s.taken r.operation)).1 := by
    rw [during_attempt]
    split
    · exact Or.inr rfl
    · exact Or.inl rfl
  cases o with
  | none => exact hd
  | some o =>
    change (Account.attempt r s).state t.milliseconds = _ ∨
      (Account.attempt r s).state t.milliseconds = _
    rw [Attempt.state]
    split
    · rw [attempt_eq, Behaviour.after_attempt]
      split
      · exact Or.inr rfl
      · exact Or.inl rfl
    · exact hd

theorem offering_work (r : Request) (s : Scripted) : (work r s).1.offering = s.offering := by
  cases r with
  | unlock p => simp only [work, apply_ite Prod.fst, apply_ite offering, ite_self]
  | _ => rfl

theorem OffersLocker.next {s : Scripted} (h : s.OffersLocker) (x : Exchange) :
    (x.next s).OffersLocker := by
  cases x with
  | answer c offered =>
    cases c with
    | locker =>
      obtain ⟨-, hne, hsub⟩ := takeEntry_of_ne_nil false h.1
      exact ⟨hne, fun b hb => h.2 b (hsub b hb)⟩
    | protectingSigner => exact h
    | signer => exact h
  | call k =>
    rcases next_call s k with hk | hk
    · rw [hk]
      exact h
    · rw [hk, OffersLocker, offering_work]
      exact h

theorem OffersLocker.passes {s s' : Scripted} {xs : List Exchange} (h : s.OffersLocker)
    (hp : Passes s xs s') : s'.OffersLocker :=
  hp.invariant (fun _ x hs => hs.next x) h

theorem OffersLocker.offers {s : Scripted} (h : s.OffersLocker) :
    (Account.offers .locker s).1 = true := h.2 _ (takeEntry_of_ne_nil false h.1).1

theorem OffersLocker.not_withdrawn {s : Scripted} (h : s.OffersLocker) :
    ¬ (Exchange.answer .locker false).Holds s := by
  intro ha
  exact Bool.false_ne_true (ha.symm.trans h.offers)

theorem unlocked_next_call (s : Scripted) {k : Call} (hk : k.request.movesLock = false) :
    ((Exchange.call k).next s).unlocked = s.unlocked := by
  obtain ⟨r, t, w, o⟩ := k
  rcases next_call s ⟨r, t, w, o⟩ with h | h
  · rw [h]
    rfl
  · rw [h]
    cases r with
    | unlock p => cases hk
    | lock => cases hk
    | _ => rfl

/-- Where nothing moves the lock, it stays as it was. -/
theorem unlocked_passes {s s' : Scripted} {xs : List Exchange} (h : Passes s xs s')
    (hx : ∀ k, .call k ∈ xs → k.request.movesLock = false) : s'.unlocked = s.unlocked := by
  induction xs generalizing s with
  | nil => exact h ▸ rfl
  | cons x xs ih =>
    rw [ih h.2 fun k hk => hx k (.tail x hk)]
    cases x with
    | answer c offered => rfl
    | call k => exact unlocked_next_call s (hx k List.mem_cons_self)

theorem unlocked_next_refused {s : Scripted} {p : List UInt8} {t : Duration} {w : Wait}
    {e : AccountError} (h : (Exchange.ended (.unlock p) t w (.refused e)).Holds s) :
    ((Exchange.ended (.unlock p) t w (.refused e)).next s).unlocked = s.unlocked := by
  rcases next_refused h with hn | ⟨hn, hr⟩
  · rw [hn]
    rfl
  · dsimp only [Request.operation] at hn hr
    -- An unlock whose work is refused was tried with another passphrase.
    by_cases hp : p = (s.taken .unlock).passphrase
    · subst hp
      rw [work_unlock_self (s.taken .unlock)] at hr
      cases hr
    · rw [hn, work_unlock_of_ne hp]
      rfl

theorem unlocked_refused {t : Duration} {ps : List Passphrase} {s s' : Scripted}
    {xs : List Exchange} (hr : Session.Refused t ps xs) (h : Passes s xs s') :
    s'.unlocked = s.unlocked := by
  -- No refused unlock moves the lock, so neither does a list of them.
  induction hr generalizing s with
  | nil => exact h ▸ rfl
  | cons p w e hr ih => exact (ih h.2).trans (unlocked_next_refused h.1)

theorem unlocked_query {s : Scripted} {t : Duration} {w : Wait} {unlocked : Bool}
    (h : (Exchange.ended .isUnlocked t w (.returned unlocked)).Holds s) : unlocked = s.unlocked := by
  obtain ⟨-, hr⟩ := next_returned h
  exact (Except.ok.inj hr).symm

/-- An unlock with this passphrase works, and does so before it waits. -/
def UnlocksAtOnce (s : Scripted) (p : List UInt8) : Prop :=
  p = s.passphrase ∧ (s.due .unlock).worksAtOnce = true

theorem unlocked_ite_work_unlock (s : Scripted) (p : List UInt8) :
    (if (s.due .unlock).worksAtOnce then (work (.unlock p) (s.taken .unlock)).1
      else s.taken .unlock).unlocked = true ↔ s.unlocked = true ∨ s.UnlocksAtOnce p := by
  change _ ↔ (s.taken .unlock).unlocked = true ∨ p = (s.taken .unlock).passphrase ∧ _
  by_cases hw : (s.due .unlock).worksAtOnce = true
  · by_cases hp : p = (s.taken .unlock).passphrase
    · subst hp
      simp [hw, work_unlock_self]
    · simp [hw, hp, work_unlock_of_ne]
  · simp [hw]

/-- A lock that comes to this has not done its work. -/
def MissesLock (s : Scripted) : Option (Outcome Unit) → Prop
  | some (.returned _) => False
  | some (.refused _) => True
  | some .expired | none => (s.due .lock).worksAtOnce = false

theorem unlocked_next_lock {s : Scripted} {t : Duration} {w : Wait} {o : Option (Outcome Unit)}
    (h : (Exchange.call ⟨.lock, t, w, o⟩).Holds s) :
    ((Exchange.call ⟨.lock, t, w, o⟩).next s).unlocked = true ↔
      s.unlocked = true ∧ s.MissesLock o := by
  have hu : ∀ b : Bool,
      (if b then (work .lock (s.taken .lock)).1 else s.taken .lock).unlocked = true ↔
        s.unlocked = true ∧ b = false := by
    intro b
    cases b with
    | true => exact ⟨nofun, fun hb => absurd hb.2 nofun⟩
    | false => exact ⟨fun hb => ⟨hb, rfl⟩, And.left⟩
  cases o with
  | none =>
    change ((Exchange.pending .lock t w).next s).unlocked = true ↔ _
    rw [next_pending]
    exact hu _
  | some o =>
    change ((Exchange.ended .lock t w o).next s).unlocked = true ↔ _
    cases o with
    | returned u =>
      rw [(next_returned h).1]
      exact ⟨nofun, fun hm => absurd hm.2 id⟩
    | refused e =>
      rcases next_refused h with hn | ⟨-, hr⟩
      · rw [hn]
        exact ⟨fun hs => ⟨hs, trivial⟩, And.left⟩
      · cases hr
    | expired =>
      rw [next_expired h]
      exact hu _

theorem behaving_work (r : Request) (s : Scripted) : (work r s).1.behaving = s.behaving := by
  cases r with
  | unlock p => simp only [work, apply_ite Prod.fst, apply_ite behaving, ite_self]
  | _ => rfl

theorem due_lock_next_unlock (s : Scripted) (p : List UInt8) (t : Duration) (w : Wait)
    (o : Option (Outcome Unit)) :
    ((Exchange.call ⟨.unlock p, t, w, o⟩).next s).due .lock = s.due .lock := by
  rcases next_call s ⟨.unlock p, t, w, o⟩ with h | h
  · rw [h]
    rfl
  · rw [h, due, behaving_work]
    rfl

theorem unlocked_next_unlock_expired {s : Scripted} {p : List UInt8} {t : Duration} {w : Wait}
    (h : (Exchange.ended (.unlock p) t w .expired).Holds s) :
    ((Exchange.ended (.unlock p) t w .expired).next s).unlocked = true ↔
      s.unlocked = true ∨ s.UnlocksAtOnce p := by
  rw [next_expired h]
  exact unlocked_ite_work_unlock s p

theorem unlocked_next_unlock_pending (s : Scripted) (p : List UInt8) (t : Duration) (w : Wait) :
    ((Exchange.pending (.unlock p) t w).next s).unlocked = true ↔
      s.unlocked = true ∨ s.UnlocksAtOnce p := by
  rw [next_pending]
  exact unlocked_ite_work_unlock s p

/-- After an unlock that was given up on, the account is unlocked if that worked all the same and
the lock after it did not. -/
theorem unlocked_lost_unlock {s s' : Scripted} {p : List UInt8} {t t' : Duration} {w w' : Wait}
    {o : Option (Outcome Unit)}
    (h : Passes s [.ended (.unlock p) t w .expired, .answer .locker true,
      .call ⟨.lock, t', w', o⟩] s') :
    s'.unlocked = true ↔ (s.unlocked = true ∨ s.UnlocksAtOnce p) ∧ s.MissesLock o := by
  obtain ⟨hu, -, hk, rfl⟩ := h
  -- The unlock takes nothing from the script of the lock, which is due as it was before.
  have hm : ∀ s₁ : Scripted, s₁.due .lock = s.due .lock → (s₁.MissesLock o ↔ s.MissesLock o) := by
    intro s₁ hd
    unfold MissesLock
    rw [hd]
  rw [unlocked_next_lock hk]
  exact and_congr (unlocked_next_unlock_expired hu) (hm _ (due_lock_next_unlock s p t w _))

end Scripted

end Notary
