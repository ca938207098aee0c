import Notary.Proofs.Interruption
import Notary.Proofs.Settlement

/-! Which exchanges of a request have to do with the lock of the account. The calls that can move
it are made while the account is being unlocked and when it is locked at the end; what stands
between them leaves it alone. Where the account does not offer to be locked, or says that it is
unlocked, there are none. -/

namespace Notary

namespace Exchange

/-- The account was asked, and said that it was unlocked already. -/
def reportsUnlocked : Exchange → Bool
  | call ⟨.isUnlocked, _, _, some (.returned true)⟩ => true
  | _ => false

/-- If it is a call, it is one that can move the lock. -/
def MovesLock (x : Exchange) : Prop := ∀ k, x = .call k → k.request.movesLock = true

/-- If it is a call, it is one that leaves the lock alone. -/
def SparesLock (x : Exchange) : Prop := ∀ k, x = .call k → k.request.movesLock = false

theorem MovesLock.not_reportsUnlocked {x : Exchange} (h : x.MovesLock) :
    x.reportsUnlocked = false := by
  unfold reportsUnlocked
  split
  · exact absurd (h _ rfl) nofun
  · rfl

theorem SparesLock.not_unlocks {x : Exchange} (h : x.SparesLock) : x.unlocks = false := by
  unfold unlocks
  split
  · exact absurd (h _ rfl) nofun
  · rfl

theorem not_exists_unlocks {xs : List Exchange} (h : ∀ x ∈ xs, x.unlocks = false) :
    ¬ ∃ x ∈ xs, x.unlocks = true := by
  rintro ⟨x, hx, hu⟩
  exact absurd (hu.symm.trans (h x hx)) nofun

theorem movesLock_answer (c : Capability) (offered : Bool) : (answer c offered).MovesLock := by
  rintro k ⟨⟩

theorem sparesLock_answer (c : Capability) (offered : Bool) : (answer c offered).SparesLock := by
  rintro k ⟨⟩

theorem sparesLock_isUnlocked (limit : Duration) (w : Wait) (o : Option (Outcome Bool)) :
    (call ⟨.isUnlocked, limit, w, o⟩).SparesLock := by
  rintro k ⟨⟩
  rfl

theorem movesLock_unlock (p : List UInt8) (limit : Duration) (w : Wait)
    (o : Option (Outcome Unit)) : (call ⟨.unlock p, limit, w, o⟩).MovesLock := by
  rintro k ⟨⟩
  rfl

theorem movesLock_lock (limit : Duration) (w : Wait) (o : Option (Outcome Unit)) :
    (call ⟨.lock, limit, w, o⟩).MovesLock := by
  rintro k ⟨⟩
  rfl

end Exchange

namespace Session

theorem Refused.movesLock {t : Duration} {ps : List Passphrase} {xs : List Exchange}
    (h : Refused t ps xs) : ∀ x ∈ xs, x.MovesLock := by
  induction h with
  | nil => exact List.forall_mem_nil _
  | cons p w e h ih =>
    exact List.forall_mem_cons.2 ⟨Exchange.movesLock_unlock p.bytes t w (some (.refused e)), ih⟩

theorem Relocking.movesLock {t : Duration} {session : Option Session} {xs : List Exchange}
    {ending : Ending (Except CallError Unit)} (h : Relocking t session xs ending) :
    ∀ x ∈ xs, x.MovesLock := by
  cases h with
  | withdrawn => exact List.forall_mem_singleton.2 (Exchange.movesLock_answer .locker false)
  | ended w o =>
    have ha := Exchange.movesLock_answer .locker true
    have hl := Exchange.movesLock_lock t w (some o)
    exact List.forall_mem_cons.2 ⟨ha, List.forall_mem_singleton.2 hl⟩
  | pending w =>
    have ha := Exchange.movesLock_answer .locker true
    have hl := Exchange.movesLock_lock t w none
    exact List.forall_mem_cons.2 ⟨ha, List.forall_mem_singleton.2 hl⟩

theorem Relocking.not_unlocks {t : Duration} {session : Option Session} {xs : List Exchange}
    {ending : Ending (Except CallError Unit)} (h : Relocking t session xs ending) :
    ∀ x ∈ xs, x.unlocks = false := by
  cases h with
  | withdrawn => exact List.forall_mem_singleton.2 rfl
  | ended w o => exact List.forall_mem_cons.2 ⟨rfl, List.forall_mem_singleton.2 rfl⟩
  | pending w => exact List.forall_mem_cons.2 ⟨rfl, List.forall_mem_singleton.2 rfl⟩

variable {account : String} {t : Duration} {ps : List Passphrase} {attempt : Nat}
  {xs : List Exchange} {ending : Ending (Except Error UnlockState)}

theorem Trying.movesLock (h : Trying account t ps attempt xs ending) : ∀ x ∈ xs, x.MovesLock := by
  cases h with
  | exhausted h => exact h.movesLock
  | @unlocked qs rest p xs w hps h =>
    have hu := Exchange.movesLock_unlock p.bytes t w (some (.returned ()))
    exact List.forall_mem_append.2 ⟨h.movesLock, List.forall_mem_singleton.2 hu⟩
  | @expired qs rest p xs ys lock _ w hps h hl he =>
    have hu := Exchange.movesLock_unlock p.bytes t w (some .expired)
    exact List.forall_mem_append.2 ⟨h.movesLock, List.forall_mem_cons.2 ⟨hu, hl.movesLock⟩⟩
  | @pending qs rest p xs w hps h =>
    have hu := Exchange.movesLock_unlock p.bytes t w none
    exact List.forall_mem_append.2 ⟨h.movesLock, List.forall_mem_singleton.2 hu⟩

/-- An unlock was seen to succeed, or none was: that decides whether the session owes a lock. -/
theorem Trying.unlocks_iff (h : Trying account t ps attempt xs ending) :
    (∃ x ∈ xs, x.unlocks = true) ↔ ending = .finished (.ok .justUnlocked) := by
  have hr : ∀ {qs : List Passphrase} {ys : List Exchange}, Refused t qs ys →
      ∀ x ∈ ys, x.unlocks = false := fun h x hx => (Process.idle_of_refused h x hx).unlocks
  cases h with
  | exhausted h => exact ⟨fun hx => absurd hx (Exchange.not_exists_unlocks (hr h)), nofun⟩
  | unlocked w hps h =>
    exact ⟨fun _ => rfl, fun _ => ⟨_, List.mem_append_right _ (List.mem_singleton_self _), rfl⟩⟩
  | expired w hps h hl he =>
    refine ⟨fun hx => absurd hx (Exchange.not_exists_unlocks ?_), fun h => ?_⟩
    · exact List.forall_mem_append.2 ⟨hr h, List.forall_mem_cons.2 ⟨rfl, hl.not_unlocks⟩⟩
    · obtain ⟨lock, -, he⟩ := Ending.finished_eq_map_iff.1 (h.symm.trans he)
      cases he
  | pending w hps h =>
    refine ⟨fun hx => absurd hx (Exchange.not_exists_unlocks ?_), nofun⟩
    exact List.forall_mem_append.2 ⟨hr h, List.forall_mem_singleton.2 rfl⟩

variable {c : Config}

theorem Unlocking.unlocks_iff (h : Unlocking account c xs ending) :
    (∃ x ∈ xs, x.unlocks = true) ↔ ending = .finished (.ok .justUnlocked) := by
  cases h with
  | locked w h =>
    rw [← h.unlocks_iff]
    simp [Exchange.unlocks, Exchange.ended]
  | _ => simp [Exchange.unlocks, Exchange.ended, Exchange.pending]

/-- Where the account is not to be locked, or says that it is unlocked, the lock is not touched. -/
theorem Unlocking.sparesLock (h : Unlocking account c xs ending)
    (hx : .answer .locker true ∉ xs ∨ ∃ x ∈ xs, x.reportsUnlocked = true) :
    (∀ x ∈ xs, x.SparesLock) ∧
      ∃ state, state ≠ .justUnlocked ∧ ending = .finished (.ok state) := by
  cases h with
  | notLockable =>
    have ha := Exchange.sparesLock_answer .locker false
    exact ⟨List.forall_mem_singleton.2 ha, .notLockable, by decide, rfl⟩
  | alreadyUnlocked w =>
    have hq := Exchange.sparesLock_isUnlocked c.timeout w (some (.returned true))
    have ha := Exchange.sparesLock_answer .locker true
    have hs := List.forall_mem_cons.2 ⟨ha, List.forall_mem_singleton.2 hq⟩
    exact ⟨hs, .alreadyUnlocked, by decide, rfl⟩
  | queryRefused w e => simp [Exchange.reportsUnlocked, Exchange.ended] at hx
  | queryExpired w => simp [Exchange.reportsUnlocked, Exchange.ended] at hx
  | queryPending w => simp [Exchange.reportsUnlocked, Exchange.pending] at hx
  | locked w h =>
    rcases hx with hx | ⟨x, hx, hr⟩
    · exact absurd List.mem_cons_self hx
    · rcases List.mem_cons.1 hx with rfl | hx
      · cases hr
      · rcases List.mem_cons.1 hx with rfl | hx
        · cases hr
        · cases hr.symm.trans (h.movesLock x hx).not_reportsUnlocked

end Session

namespace Process
open Session (Unlocking Relocking)

/-- The signer's part never touches the lock, and does not ask for it either. -/
theorem Signing.sparesLock {account : String} {s : Session} {order : Order} {xs : List Exchange}
    {ending : Ending (Except Error Signature)} (h : Signing account s order xs ending) :
    ∀ x ∈ xs, x.SparesLock ∧ x.reportsUnlocked = false := by
  have hc : ∀ w o, (order.exchange s.timeout w o).SparesLock ∧
      (order.exchange s.timeout w o).reportsUnlocked = false := by
    intro w o
    cases order <;> exact ⟨by rintro k ⟨⟩; rfl, rfl⟩
  have ha : ∀ offered, (Exchange.answer order.capability offered).SparesLock ∧
      (Exchange.answer order.capability offered).reportsUnlocked = false :=
    fun offered => ⟨Exchange.sparesLock_answer order.capability offered, rfl⟩
  cases h with
  | withdrawn => exact List.forall_mem_singleton.2 (ha false)
  | ended w o => exact List.forall_mem_cons.2 ⟨ha true, List.forall_mem_singleton.2 (hc w (some o))⟩
  | pending w => exact List.forall_mem_cons.2 ⟨ha true, List.forall_mem_singleton.2 (hc w none)⟩

section
variable {account : String} {c : Config} {order : Order} {xs : List Exchange}

theorem InSession.sparesLock {ending : Ending (Except Error Signature)}
    (h : InSession account c order xs ending)
    (hx : .answer .locker true ∉ xs ∨ ∃ x ∈ xs, x.reportsUnlocked = true) :
    ∀ x ∈ xs, x.SparesLock := by
  -- What holds of the whole log holds of the unlocking at its head: only that asks for the lock.
  have head : ∀ {as bs : List Exchange}, xs = as ++ bs →
      (∀ x ∈ bs, x.reportsUnlocked = false) →
      .answer .locker true ∉ as ∨ ∃ x ∈ as, x.reportsUnlocked = true := by
    rintro as bs rfl hb
    refine hx.imp (fun hn hm => hn (List.mem_append_left bs hm)) ?_
    rintro ⟨x, hm, hr⟩
    rcases List.mem_append.1 hm with hm | hm
    · exact ⟨x, hm, hr⟩
    · exact absurd (hr.symm.trans (hb x hm)) nofun
  cases h with
  | refused h => exact (h.sparesLock hx).1
  | unlocking h => exact (h.sparesLock hx).1
  | @unowed as bs state _ h hs hg =>
    have ha := (h.sparesLock (head rfl fun x hm => (hg.sparesLock x hm).2)).1
    exact List.forall_mem_append.2 ⟨ha, fun x hm => (hg.sparesLock x hm).1⟩
  | @signing as bs session h hg =>
    obtain ⟨-, state, hn, he⟩ := h.sparesLock (head rfl fun x hm => (hg.sparesLock x hm).2)
    cases he
    exact absurd rfl hn
  | @owed as bs zs outcome lock _ h hg hl he =>
    have hb : ∀ x ∈ bs ++ zs, x.reportsUnlocked = false := List.forall_mem_append.2
      ⟨fun x hm => (hg.sparesLock x hm).2, fun x hm => (hl.movesLock x hm).not_reportsUnlocked⟩
    obtain ⟨-, state, hn, he⟩ := h.sparesLock (head (List.append_assoc as bs zs) hb)
    cases he
    exact absurd rfl hn

variable {session : Option Session}

/-- From the unlock on, and as long as it has not ended, a request is in the session that owes the
lock; before that it is in none that does. -/
theorem InSession.owes_iff (h : InSession account c order xs (.dropped session)) (q : Session) :
    session.filter Session.owesLock = some q ↔
      (∃ x ∈ xs, x.unlocks = true) ∧ q = ⟨.justUnlocked, c.timeout⟩ := by
  have owed : (Option.some ⟨.justUnlocked, c.timeout⟩).filter Session.owesLock = some q ↔
      q = ⟨.justUnlocked, c.timeout⟩ := by
    change some _ = some q ↔ _
    rw [Option.some.injEq, eq_comm]
  cases h with
  | unlocking h =>
    have hn : ¬ ∃ x ∈ xs, x.unlocks = true := fun hx => nomatch h.unlocks_iff.1 hx
    rw [session_eq_none_of_unlocking h]
    exact ⟨nofun, fun hx => absurd hx.1 hn⟩
  | @unowed as bs state _ h hs hg =>
    have ha : ¬ ∃ x ∈ as, x.unlocks = true := by
      intro hx
      cases h.unlocks_iff.1 hx
      exact hs rfl
    have hb := Exchange.not_exists_unlocks fun x hm => (hg.unlocks_locking x hm).1
    rw [hg.session_eq]
    refine ⟨fun hq => ?_, fun hx => ?_⟩
    · cases state with
      | justUnlocked => exact absurd rfl hs
      | notLockable => cases hq
      | alreadyUnlocked => cases hq
    · simp only [List.mem_append, or_and_right, exists_or, ha, hb, or_self, false_and] at hx
  | @signing as bs _ h hg =>
    obtain ⟨x, hm, hu⟩ := h.unlocks_iff.2 rfl
    rw [hg.session_eq, owed]
    exact (and_iff_right ⟨x, List.mem_append_left bs hm, hu⟩).symm
  | @owed as bs zs outcome lock _ h hg hl he =>
    obtain ⟨x, hm, hu⟩ := h.unlocks_iff.2 rfl
    rw [Ending.dropped_eq_map_iff.1 he] at hl
    cases hl with
    | pending w =>
      rw [owed]
      have hm := List.mem_append_left bs hm
      exact (and_iff_right ⟨x, List.mem_append_left _ hm, hu⟩).symm

end

namespace OfRoot
variable {account : String} {c : Config} {root : Root} {domain : Domain} {xs : List Exchange}
  {session : Option Session}

/-! What is asked at the beginning of a request is no part of its session, and no call. -/

theorem owes_iff (h : OfRoot account c root domain xs (.dropped session)) (q : Session) :
    session.filter Session.owesLock = some q ↔
      (∃ x ∈ xs, x.unlocks = true) ∧ q = ⟨.justUnlocked, c.timeout⟩ := by
  obtain ⟨l, p, g, ys, order, rfl, hi⟩ := h.inSession
  rw [hi.owes_iff]
  simp [Exchange.unlocks]

theorem sparesLock (h : OfRoot account c root domain xs (.dropped session))
    (hx : .answer .locker true ∉ xs ∨ ∃ x ∈ xs, x.reportsUnlocked = true) :
    ∀ x ∈ xs, x.SparesLock := by
  obtain ⟨l, p, g, ys, order, rfl, hi⟩ := h.inSession
  have asked : ∀ x ∈ [.answer .locker l, .answer .protectingSigner p, .answer .signer g],
      Exchange.SparesLock x ∧ x.reportsUnlocked = false := by
    simp [Exchange.sparesLock_answer, Exchange.reportsUnlocked]
  have hy : .answer .locker true ∉ ys ∨ ∃ x ∈ ys, x.reportsUnlocked = true := by
    refine hx.imp (fun hn hm => hn (List.mem_append_right _ hm)) ?_
    rintro ⟨x, hm, hr⟩
    refine ⟨x, (List.mem_append.1 hm).resolve_left fun hm => ?_, hr⟩
    exact absurd (hr.symm.trans (asked x hm).2) nofun
  exact List.forall_mem_append.2 ⟨fun x hm => (asked x hm).1, hi.sparesLock hy⟩

/-- An account that was unlocked had offered it. -/
theorem locker_of_unlocks (h : OfRoot account c root domain xs (.dropped session))
    (hx : ∃ x ∈ xs, x.unlocks = true) : .answer .locker true ∈ xs := by
  refine Classical.byContradiction fun hn => ?_
  have spares := h.sparesLock (Or.inl hn)
  exact Exchange.not_exists_unlocks (fun x hm => (spares x hm).not_unlocks) hx

end OfRoot

end Process

end Notary
