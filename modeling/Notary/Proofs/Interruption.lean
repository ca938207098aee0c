import Notary.Proofs.Exposure

/-! What becomes of an account when a request is dropped. Once an unlock has been seen to succeed
there is a session, and dropping that locks the account. Until then there is none: an unlock that
has worked but not yet answered, or that was given up on and whose lock has not worked yet, leaves
the account unlocked, and nothing locks it any more. -/

namespace Notary

namespace Session
open Process Account

theorem abandon_eq_of_unowed {account : String} {session : Option Session}
    (h : session.filter owesLock = none) : abandon account session = pure () := by
  unfold abandon
  rw [h]

theorem abandon_of_unowed {σ : Type} [Account σ] {account : String} {session : Option Session}
    (h : session.filter owesLock = none) (s : σ) :
    ((abandon account session).run none s).requests = [] := by
  rw [abandon_eq_of_unowed h]
  rfl

/-- An account that offers to be locked is locked, once, on whatever time is allowed. -/
theorem Relocking.calls {σ : Type} [Account σ] {t : Duration} {session : Option Session}
    {xs : List Exchange} {lock : Except CallError Unit} {s s' : σ}
    (h : Relocking t session xs (.finished lock)) (hs : (Account.offers .locker s).1 = true)
    (hp : Passes s xs s') : ∃ w o, xs.filterMap Exchange.call? = [⟨.lock, t, w, some o⟩] := by
  cases h with
  | withdrawn => exact absurd (hs.symm.trans hp.1) nofun
  | ended w o => exact ⟨w, o, rfl⟩

theorem abandon_of_owed {σ : Type} [Account σ] {account : String} {session : Option Session}
    {q : Session} (h : session.filter owesLock = some q) {s : σ}
    (hs : (Account.offers .locker s).1 = true) :
    ∃ w o, ((abandon account session).run none s).calls = [⟨.lock, q.timeout, w, some o⟩] := by
  have hp := run_passes (abandon account session) none s
  obtain ⟨u, -, hx⟩ := run_none_leads (abandon account session) s
  unfold abandon at hx hp ⊢
  rw [h] at hx hp ⊢
  obtain ⟨e, hl, he⟩ := leads_relockReporting (leads_emit hx)
  obtain ⟨lock, rfl, -⟩ := Ending.finished_eq_map_iff.1 he
  exact hl.calls hs hp

end Session

namespace Process
open Session (Unlocking Relocking Trying)

/-- The log ends while an unlock, or the lock after an unlock that was given up on, is under way. -/
def EndsUnseen (xs : List Exchange) : Prop :=
  (∃ ys p t w, xs = ys ++ [.pending (.unlock p) t w]) ∨ EndsInLostUnlock xs

theorem not_endsUnseen_of_getLast {ys : List Exchange} {x : Exchange}
    (hx : ∀ k, x = .call k → k.request.movesLock = false) : ¬ EndsUnseen (ys ++ [x]) := by
  rintro (⟨zs, p, t, w, he⟩ | ⟨zs, p, t, w, t', w', o, he⟩)
  · have h := List.cons.inj (List.append_inj' he rfl).2
    exact absurd (hx _ h.1) nofun
  · have he' : ys ++ [x] = (zs ++ [.ended (.unlock p) t w .expired, .answer .locker true]) ++
        [.call ⟨.lock, t', w', o⟩] := by
      rw [he, List.append_assoc]
      rfl
    have h := List.cons.inj (List.append_inj' he' rfl).2
    exact absurd (hx _ h.1) nofun

theorem not_endsUnseen_of_lock {ys : List Exchange} {x : Exchange} {t : Duration} {w : Wait}
    (hx : ∀ k, x = .call k → k.request.movesLock = false) :
    ¬ EndsUnseen (ys ++ [x, .answer .locker true, .pending .lock t w]) := by
  rintro (⟨zs, p, t', w', he⟩ | h)
  · have he' : (ys ++ [x, .answer .locker true]) ++ [.pending .lock t w]
        = zs ++ [.pending (.unlock p) t' w'] := by
      rw [← he, List.append_assoc]
      rfl
    have h := List.cons.inj (List.append_inj' he' rfl).2
    cases h.1
  · exact not_endsInLostUnlock ys _ hx h

theorem Signing.session_eq {account : String} {s : Session} {order : Order} {xs : List Exchange}
    {session : Option Session} (h : Signing account s order xs (.dropped session)) :
    session = some s := by
  cases h with
  | pending w => rfl

/-- While the account is being unlocked there is no session yet. -/
theorem session_eq_none_of_unlocking {account : String} {c : Config} {xs : List Exchange}
    {session : Option Session} (h : Unlocking account c xs (.dropped session)) :
    session = none := by
  cases h with
  | queryPending w => rfl
  | locked w h =>
    cases h with
    | expired w' hps h hl he =>
      rw [Ending.dropped_eq_map_iff.1 he] at hl
      cases hl with
      | pending v => rfl
    | pending w' hps h => rfl

/-- A session that owes a lock is dropped while signing or while locking. -/
theorem InSession.not_endsUnseen {account : String} {c : Config} {order : Order}
    {xs : List Exchange} {session : Option Session} {q : Session}
    (h : InSession account c order xs (.dropped session)) (us : List Exchange)
    (hq : session.filter Session.owesLock = some q) : ¬ EndsUnseen (us ++ xs) := by
  cases h with
  | unlocking h =>
    rw [session_eq_none_of_unlocking h] at hq
    cases hq
  | @unowed as bs state _ h hs hg =>
    rw [hg.session_eq] at hq
    cases state with
    | justUnlocked => exact absurd rfl hs
    | notLockable => cases hq
    | alreadyUnlocked => cases hq
  | @signing as bs _ h hg =>
    obtain ⟨ys, x, rfl, hx⟩ := hg.getLast
    rw [← List.append_assoc, ← List.append_assoc]
    exact not_endsUnseen_of_getLast hx
  | @owed as bs zs outcome lock _ h hg hl he =>
    obtain ⟨ys, x, rfl, hx⟩ := hg.getLast
    rw [Ending.dropped_eq_map_iff.1 he] at hl
    cases hl with
    | pending w =>
      have hn : ¬ EndsUnseen (us ++ (as ++ ys) ++ [x, .answer .locker true,
          .pending .lock c.timeout w]) := not_endsUnseen_of_lock hx
      simpa only [List.append_assoc, List.cons_append, List.nil_append] using hn

theorem OfRoot.inSession {account : String} {c : Config} {root : Root} {domain : Domain}
    {xs : List Exchange} {session : Option Session}
    (h : OfRoot account c root domain xs (.dropped session)) :
    ∃ l p g ys order,
      xs = [.answer .locker l, .answer .protectingSigner p, .answer .signer g] ++ ys ∧
        InSession account c order ys (.dropped session) := by
  cases h with
  | protecting h l g hi => exact ⟨l, true, g, _, _, rfl, hi⟩
  | plain h l hi => exact ⟨l, false, true, _, _, rfl, hi⟩

end Process

namespace Scripted
open Account Process Session

/-- The account is left unlocked with nobody to know of it: an unlock that has not answered yet has
worked, or one that was given up on has worked and the lock after it has not. -/
def ForgetsUnlock (s : Scripted) (xs : List Exchange) : Prop :=
  (∃ ys s₁ p t w, xs = ys ++ [.pending (.unlock p) t w] ∧ Passes s ys s₁ ∧ s₁.UnlocksAtOnce p) ∨
    s.LosesUnlock xs

theorem ForgetsUnlock.endsUnseen {s : Scripted} {xs : List Exchange} (h : s.ForgetsUnlock xs) :
    EndsUnseen xs := by
  rcases h with ⟨ys, s₁, p, t, w, hx, -⟩ | h
  · exact Or.inl ⟨ys, p, t, w, hx⟩
  · exact Or.inr h.endsIn

theorem ForgetsUnlock.unlocked {s s' : Scripted} {xs : List Exchange} (h : s.ForgetsUnlock xs)
    (hp : Passes s xs s') : s'.unlocked = true := by
  rcases h with ⟨ys, s₁, p, t, w, rfl, hy, hu⟩ | h
  · obtain ⟨s₂, hs, -, rfl⟩ := passes_append.1 hp
    cases passes_unique hs hy
    exact (unlocked_next_unlock_pending s₁ p t w).2 (Or.inr hu)
  · exact h.unlocked hp

theorem ForgetsUnlock.append {s s₁ : Scripted} {us xs : List Exchange} (h : s₁.ForgetsUnlock xs)
    (hp : Passes s us s₁) : s.ForgetsUnlock (us ++ xs) := by
  rcases h with ⟨ys, s₂, p, t, w, rfl, hy, hu⟩ | h
  · exact Or.inl ⟨us ++ ys, s₂, p, t, w, (List.append_assoc ..).symm,
      passes_append.2 ⟨s₁, hp, hy⟩, hu⟩
  · exact Or.inr (h.append hp)

variable {account : String} {c : Config} {xs : List Exchange} {session : Option Session}
  {s s' : Scripted}

theorem forgets_of_trying {attempt : Nat} {ps : List Passphrase} (hl : s.unlocked = false)
    (h : Trying account c.timeout ps attempt xs (.dropped session))
    (hp : Passes s xs s') (hu : s'.unlocked = true) : s.ForgetsUnlock xs := by
  cases h with
  | @expired qs rest p xs ys lock _ w hps h hlock he =>
    obtain ⟨s₁, h₁, h₂⟩ := passes_append.1 hp
    rw [Ending.dropped_eq_map_iff.1 he] at hlock
    cases hlock with
    | pending v =>
      obtain ⟨hw, hm⟩ := (unlocked_lost_unlock h₂).1 hu
      have hw : s₁.UnlocksAtOnce p.bytes :=
        hw.resolve_left (by simp [unlocked_refused h h₁, hl])
      exact Or.inr ⟨xs, s₁, p.bytes, c.timeout, w, c.timeout, v, none, rfl, h₁, hw, hm⟩
  | @pending qs rest p xs w hps h =>
    obtain ⟨s₁, h₁, -, rfl⟩ := passes_append.1 hp
    have hw := (unlocked_next_unlock_pending s₁ p.bytes c.timeout w).1 hu
    have hw : s₁.UnlocksAtOnce p.bytes := hw.resolve_left (by simp [unlocked_refused h h₁, hl])
    exact Or.inl ⟨xs, s₁, p.bytes, c.timeout, w, rfl, h₁, hw⟩

theorem forgets_of_unlocking (hl : s.unlocked = false)
    (h : Unlocking account c xs (.dropped session)) (hp : Passes s xs s')
    (hu : s'.unlocked = true) : s.ForgetsUnlock xs := by
  cases h with
  | queryPending w =>
    obtain ⟨-, -, rfl⟩ := hp
    have hq := unlocked_next_call (Exchange.next s (.answer .locker true))
      (k := ⟨.isUnlocked, c.timeout, w, none⟩) rfl
    exact absurd (hl.symm.trans (hq.symm.trans hu)) nofun
  | @locked xs _ w h =>
    have hl₂ := (unlocked_next_call (Exchange.next s (.answer .locker true))
      (k := ⟨.isUnlocked, c.timeout, w, some (.returned false)⟩) rfl).trans hl
    have h₂ : Passes s [_, _] _ := ⟨hp.1, hp.2.1, rfl⟩
    exact (forgets_of_trying hl₂ h hp.2.2 hu).append h₂

/-- Without a session that owes a lock, only an unlock can have been under way. -/
theorem forgets_of_inSession {order : Order} (hs : s.OffersLocker) (hl : s.unlocked = false)
    (h : InSession account c order xs (.dropped session))
    (hq : session.filter Session.owesLock = none) (hp : Passes s xs s')
    (hu : s'.unlocked = true) : s.ForgetsUnlock xs := by
  cases h with
  | unlocking h => exact forgets_of_unlocking hl h hp hu
  | unowed h hn hg =>
    cases h with
    | notLockable => exact absurd hp.1 hs.not_withdrawn
    | alreadyUnlocked w => exact absurd ((unlocked_query hp.2.1).trans hl) nofun
    | locked w h =>
      cases h with
      | unlocked w' hps h => exact absurd rfl hn
      | expired w' hps h hlock he =>
        obtain ⟨lock, -, he⟩ := Ending.finished_eq_map_iff.1 he
        cases he
  | signing h hg =>
    rw [hg.session_eq] at hq
    cases hq
  | owed h hg hlock he =>
    rw [Ending.dropped_eq_map_iff.1 he] at hlock
    cases hlock with
    | pending w => cases hq

/-- Dropped at any time, a request leads to a lock of an account that it found locked and has
unlocked, unless the unlock is one that nobody knows to have worked. -/
theorem signPayload_drop_relocks_iff (hs : s.OffersLocker) (hl : s.unlocked = false)
    (account : String) (c : Config) (payload : Payload) (domain : Domain) (t : Nat)
    (session : Option Session) :
    let r := (signPayload account c payload domain).run (some t) s
    r.ending = .dropped session →
      ((r.account.unlocked = true →
          Request.lock ∈ ((abandon account session).run none r.account).requests) ↔
        ¬ s.ForgetsUnlock r.exchanges) := by
  unfold signPayload
  cases payload.root with
  | error e => exact nofun
  | ok root =>
    intro r he
    have hp : Passes s r.exchanges r.account :=
      run_passes (signRoot account c root domain) (some t) s
    have hx : OfRoot account c root domain r.exchanges (.dropped session) :=
      he ▸ leads_signRoot (run_leads (signRoot account c root domain) (some t) s)
    obtain ⟨l, p, g, ys, order, hxs, hi⟩ := hx.inSession
    rw [hxs] at hp ⊢
    -- Only a session that owes a lock hands one off.
    cases hq : session.filter Session.owesLock with
    | none =>
      rw [abandon_of_unowed hq]
      refine ⟨fun h hf => absurd (h (hf.unlocked hp)) nofun, fun hf hu => absurd ?_ hf⟩
      -- Asking the account what it offers leaves its lock alone.
      obtain ⟨s₁, h₁, h₂⟩ := passes_append.1 hp
      have hl₁ : s₁.unlocked = false := (unlocked_passes h₁ (by simp)).trans hl
      exact (forgets_of_inSession (hs.passes h₁) hl₁ hi hq h₂ hu).append h₁
    | some q =>
      have ho : ∃ w o, ((abandon account session).run none r.account).calls
          = [⟨.lock, q.timeout, w, some o⟩] := abandon_of_owed hq (hs.passes hp).offers
      obtain ⟨w, o, ho⟩ := ho
      rw [Run.requests, ho]
      exact ⟨fun _ hf => hi.not_endsUnseen _ hq hf.endsUnseen, fun _ _ => List.mem_singleton_self _⟩

/-- Unlocks at once, but never says so. -/
def unanswered : Scripted :=
  { willing with
    behaving := fun
      | .unlock => [⟨.endless, true, none⟩]
      | _ => [] }

theorem unanswered_stays_unlocked :
    let r := (signPayload "a" ⟨.ofSeconds 1, [⟨[]⟩]⟩ .unit ⟨Octets.zero 32⟩).run (some 500)
      unanswered
    let after := (abandon "a" none).run none r.account
    unanswered.OffersLocker ∧ unanswered.unlocked = false ∧ r.ending = .dropped none ∧
      r.account.unlocked = true ∧ after.account.unlocked = true ∧
      Request.lock ∉ after.requests ∧ unanswered.ForgetsUnlock r.exchanges := by
  have hs : unanswered.OffersLocker := ⟨List.cons_ne_nil _ _, fun _ => List.eq_of_mem_singleton⟩
  have hx := signPayload_drop_relocks_iff hs rfl "a" ⟨.ofSeconds 1, [⟨[]⟩]⟩ .unit ⟨Octets.zero 32⟩
    500 none rfl
  refine ⟨hs, rfl, rfl, rfl, rfl, List.not_mem_nil, Classical.byContradiction fun hn => ?_⟩
  exact absurd (hx.2 hn rfl) List.not_mem_nil

end Scripted

end Notary
