import Notary.Proofs.RequestTrace
import Notary.Proofs.ScriptedLock

/-! Whether a request can leave unlocked an account that it found locked, and not say so. It can in
exactly one way: an unlock that works at once is given up on, and the lock that is to undo it does
not do its work either. The request then reports the timeout of the unlock, which is taken for
harmless, and the failed lock is only logged. -/

namespace Notary

/-- The result tells the caller that key material may have been left exposed. -/
def SecurityRelevant (result : Except Error Signature) : Prop :=
  ∃ e, result = .error e ∧ e.isSecurityRelevant = true

theorem not_securityRelevant_error {e : Error} (h : e.isSecurityRelevant = false) :
    ¬ SecurityRelevant (.error e) := by
  rintro ⟨e', he, hr⟩
  cases he
  exact absurd (h.symm.trans hr) nofun

namespace Process
open Session (Relocking)

theorem Signing.not_securityRelevant {account : String} {session : Session} {order : Order}
    {xs : List Exchange} {outcome : Except Error Signature}
    (h : Signing account session order xs (.finished outcome)) : ¬ SecurityRelevant outcome := by
  cases h with
  | withdrawn => exact not_securityRelevant_error rfl
  | ended w o =>
    cases o with
    | returned signature => exact fun ⟨e, he, _⟩ => nomatch he
    | refused source => exact not_securityRelevant_error rfl
    | expired => exact not_securityRelevant_error rfl

/-- The signer's part ends in an exchange that leaves the lock alone. -/
theorem Signing.getLast {account : String} {session : Session} {order : Order}
    {xs : List Exchange} {ending : Ending (Except Error Signature)}
    (h : Signing account session order xs ending) :
    ∃ ys x, xs = ys ++ [x] ∧ ∀ k, x = .call k → k.request.movesLock = false := by
  cases h with
  | withdrawn => exact ⟨[], _, rfl, nofun⟩
  | ended w o =>
    refine ⟨[_], _, rfl, ?_⟩
    cases order <;> (rintro k ⟨⟩; rfl)
  | pending w =>
    refine ⟨[_], _, rfl, ?_⟩
    cases order <;> (rintro k ⟨⟩; rfl)

/-- The log ends in an unlock that was given up on and the lock that is to undo it. -/
def EndsInLostUnlock (xs : List Exchange) : Prop :=
  ∃ ys p t w t' w' o, xs = ys ++ [.ended (.unlock p) t w .expired, .answer .locker true,
    .call ⟨.lock, t', w', o⟩]

/-- What stands before the lock is then the unlock, and not a call that leaves the lock alone. -/
theorem not_endsInLostUnlock (ys : List Exchange) (k : Call) {x : Exchange}
    (hx : ∀ k, x = .call k → k.request.movesLock = false) :
    ¬ EndsInLostUnlock (ys ++ [x, .answer .locker true, .call k]) := by
  rintro ⟨zs, p, t, w, t', w', o, he⟩
  have h := List.cons.inj (List.append_inj' he rfl).2
  exact absurd (hx _ h.1) nofun

theorem SessionTrace.not_securityRelevant {account : String} {c : Config} {order : Order}
    {xs : List Exchange} {result : Except Error Signature}
    (h : SessionTrace account c order xs result) (us : List Exchange)
    (hx : EndsInLostUnlock (us ++ xs)) : ¬ SecurityRelevant result := by
  cases h with
  | notLockable h => exact h.not_securityRelevant
  | queryRefused w e => exact not_securityRelevant_error rfl
  | queryExpired w => exact not_securityRelevant_error rfl
  | alreadyUnlocked w h => exact h.not_securityRelevant
  | allRefused w h => exact not_securityRelevant_error rfl
  | unlockExpired w w' hps h hl => exact not_securityRelevant_error rfl
  | @unlocked qs rest p xs ys zs outcome lock w w' hps h hg hl =>
    cases hl with
    | withdrawn => exact hg.not_securityRelevant
    | ended v o =>
      -- Before this lock stands the signer's part, and not an unlock.
      obtain ⟨as, x, rfl, hm⟩ := hg.getLast
      have hn := not_endsInLostUnlock (us ++ .answer .locker true ::
        .ended .isUnlocked c.timeout w (.returned false) ::
        (xs ++ .ended (.unlock p.bytes) c.timeout w' (.returned ()) :: as))
        ⟨.lock, c.timeout, v, some o⟩ hm
      refine absurd hx ?_
      simpa only [List.append_assoc, List.cons_append, List.nil_append, Exchange.ended] using hn

end Process

namespace Scripted
open Account Process

/-- The account is left unlocked by an unlock that was given up on: that unlock worked all the same,
and the lock after it did not. -/
def LosesUnlock (s : Scripted) (xs : List Exchange) : Prop :=
  ∃ ys s₁ p t w t' w' o,
    xs = ys ++ [.ended (.unlock p) t w .expired, .answer .locker true,
      .call ⟨.lock, t', w', o⟩] ∧
    Passes s ys s₁ ∧ s₁.UnlocksAtOnce p ∧ s₁.MissesLock o

theorem LosesUnlock.endsIn {s : Scripted} {xs : List Exchange} (h : s.LosesUnlock xs) :
    EndsInLostUnlock xs := by
  obtain ⟨ys, s₁, p, t, w, t', w', o, hx, -⟩ := h
  exact ⟨ys, p, t, w, t', w', o, hx⟩

theorem LosesUnlock.unlocked {s s' : Scripted} {xs : List Exchange} (h : s.LosesUnlock xs)
    (hp : Passes s xs s') : s'.unlocked = true := by
  obtain ⟨ys, s₁, p, t, w, t', w', o, rfl, hy, hu, hm⟩ := h
  obtain ⟨s₂, hs, hl⟩ := passes_append.1 hp
  cases passes_unique hs hy
  exact (unlocked_lost_unlock hl).2 ⟨Or.inr hu, hm⟩

theorem LosesUnlock.append {s s₁ : Scripted} {us xs : List Exchange} (h : s₁.LosesUnlock xs)
    (hp : Passes s us s₁) : s.LosesUnlock (us ++ xs) := by
  obtain ⟨ys, s₂, p, t, w, t', w', o, rfl, hy, hc⟩ := h
  exact ⟨us ++ ys, s₂, p, t, w, t', w', o, (List.append_assoc ..).symm,
    passes_append.2 ⟨s₁, hp, hy⟩, hc⟩

variable {account : String} {c : Config}

/-- Once the account has said that it is locked, only an unlock that ended well or was given up on
can have unlocked it. -/
theorem exposed_of_sessionTrace {order : Order} {xs : List Exchange}
    {result : Except Error Signature} {s s' : Scripted} (hs : s.OffersLocker)
    (hl : s.unlocked = false) (h : SessionTrace account c order xs result) (hp : Passes s xs s')
    (hu : s'.unlocked = true) :
    SecurityRelevant result ∨
      s.LosesUnlock xs ∧ result = .error (.timeout .unlock c.timeout) := by
  -- The account cannot end in a state whose lock is where it was.
  have hq : ∀ {s₁ : Scripted}, s₁.unlocked = s.unlocked → s₁ ≠ s' := by
    rintro s₁ h₁ rfl
    exact Bool.false_ne_true (hl.symm.trans (h₁.symm.trans hu))
  cases h with
  | notLockable h => exact absurd hp.1 hs.not_withdrawn
  | queryRefused w e => exact absurd hp.2.2 (hq (unlocked_next_call _ rfl))
  | queryExpired w => exact absurd hp.2.2 (hq (unlocked_next_call _ rfl))
  | alreadyUnlocked w h => exact absurd ((unlocked_query hp.2.1).trans hl) nofun
  | allRefused w h =>
    have hr := (unlocked_refused h hp.2.2).trans (unlocked_next_call _ rfl)
    exact absurd rfl (hq hr)
  | @unlockExpired qs rest p xs ys lock w w' hps h hlock =>
    obtain ⟨s₁, h₁, h₂⟩ := passes_append.1 hp.2.2
    have hl₁ : s₁.unlocked = false :=
      (unlocked_refused h h₁).trans ((unlocked_next_call _ rfl).trans hl)
    have hs₁ : s₁.OffersLocker := ((hs.next _).next _).passes h₁
    cases hlock with
    | withdrawn => exact absurd h₂.2.1 (hs₁.next _).not_withdrawn
    | ended v o =>
      obtain ⟨hw, hm⟩ := (unlocked_lost_unlock h₂).1 hu
      -- The refusals have left it locked, so that it is this unlock that has worked.
      have hw : s₁.UnlocksAtOnce p.bytes := hw.resolve_left (by simp [hl₁])
      exact Or.inr ⟨⟨_ :: _ :: xs, s₁, p.bytes, c.timeout, w', c.timeout, v, some o, rfl,
        ⟨hp.1, hp.2.1, h₁⟩, hw, hm⟩, rfl⟩
  | @unlocked qs rest p xs ys zs outcome lock w w' hps h hg hlock =>
    obtain ⟨s₁, h₁, h₂⟩ := passes_append.1 hp.2.2
    obtain ⟨s₂, h₃, h₄⟩ := passes_append.1 h₂.2
    have hs₂ : s₂.OffersLocker := ((((hs.next _).next _).passes h₁).next _).passes h₃
    cases hlock with
    | withdrawn => exact absurd h₄.1 hs₂.not_withdrawn
    | ended v o =>
      obtain ⟨-, hk, rfl⟩ := h₄
      -- A lock that was missed has failed or timed out, and either is reported.
      have hm := ((unlocked_next_lock hk).1 hu).2
      cases o with
      | returned u => exact hm.elim
      | refused e => exact Or.inl ⟨_, rfl, rfl⟩
      | expired => exact Or.inl ⟨_, rfl, rfl⟩

variable {root : Root} {domain : Domain} {xs : List Exchange} {result : Except Error Signature}
  {s s' : Scripted}

theorem exposed_of_answers {order : Order} {l p g : Bool} (hs : s.OffersLocker)
    (hl : s.unlocked = false) (h : SessionTrace account c order xs result)
    (hp : Passes s (.answer .locker l :: .answer .protectingSigner p :: .answer .signer g :: xs) s')
    (hu : s'.unlocked = true) :
    SecurityRelevant result ∨
      s.LosesUnlock (.answer .locker l :: .answer .protectingSigner p :: .answer .signer g :: xs) ∧
        result = .error (.timeout .unlock c.timeout) := by
  -- Asking the account what it offers leaves its lock alone.
  have hl₃ : (Exchange.next (Exchange.next (Exchange.next s (.answer .locker l))
    (.answer .protectingSigner p)) (.answer .signer g)).unlocked = false := hl
  refine (exposed_of_sessionTrace (((hs.next _).next _).next _) hl₃ h hp.2.2.2 hu).imp id ?_
  rintro ⟨hx, he⟩
  have h₃ : Passes s [_, _, _] _ := ⟨hp.1, hp.2.1, hp.2.2.1, rfl⟩
  exact ⟨hx.append h₃, he⟩

theorem exposed_of_requestTrace (hs : s.OffersLocker) (hl : s.unlocked = false)
    (h : RequestTrace account c root domain xs result) (hp : Passes s xs s')
    (hu : s'.unlocked = true) :
    SecurityRelevant result ∨
      s.LosesUnlock xs ∧ result = .error (.timeout .unlock c.timeout) := by
  cases h with
  | zeroTimeout h =>
    cases hp
    exact absurd (hl.symm.trans hu) nofun
  | incapable h l =>
    obtain ⟨-, -, -, rfl⟩ := hp
    exact absurd (hl.symm.trans hu) nofun
  | protecting h l g ht => exact exposed_of_answers hs hl ht hp hu
  | plain h l ht => exact exposed_of_answers hs hl ht hp hu

theorem not_securityRelevant_of_requestTrace (h : RequestTrace account c root domain xs result)
    (hx : EndsInLostUnlock xs) : ¬ SecurityRelevant result := by
  cases h with
  | zeroTimeout h => exact not_securityRelevant_error rfl
  | incapable h l => exact not_securityRelevant_error rfl
  | protecting h l g ht => exact ht.not_securityRelevant [_, _, _] hx
  | plain h l ht => exact ht.not_securityRelevant [_, _, _] hx

theorem exposed_iff_of_requestTrace (hs : s.OffersLocker) (hl : s.unlocked = false)
    (h : RequestTrace account c root domain xs result) (hp : Passes s xs s') :
    (s'.unlocked = false ∨ SecurityRelevant result ↔ ¬ s.LosesUnlock xs) ∧
      (s.LosesUnlock xs → result = .error (.timeout .unlock c.timeout)) := by
  refine ⟨⟨?_, ?_⟩, ?_⟩
  · rintro (hf | hr) hx
    · exact absurd (hf.symm.trans (hx.unlocked hp)) nofun
    · exact not_securityRelevant_of_requestTrace h hx.endsIn hr
  · intro hx
    cases hu : s'.unlocked with
    | false => exact Or.inl rfl
    | true =>
      exact Or.inr ((exposed_of_requestTrace hs hl h hp hu).resolve_right fun h => hx h.1)
  · intro hx
    rcases exposed_of_requestTrace hs hl h hp (hx.unlocked hp) with hr | he
    · exact absurd hr (not_securityRelevant_of_requestTrace h hx.endsIn)
    · exact he.2

/-- An account found locked is locked again or its exposure is reported, unless an unlock that was
given up on worked and the lock after it did not; then the unlock's timeout is all that is
reported. -/
theorem signPayload_exposed_iff {s : Scripted} (hs : s.OffersLocker) (hl : s.unlocked = false)
    (account : String) (c : Config) (payload : Payload) (domain : Domain) :
    let r := (signPayload account c payload domain).run none s
    ∃ result, r.ending = .finished result ∧
      (r.account.unlocked = false ∨ SecurityRelevant result ↔ ¬ s.LosesUnlock r.exchanges) ∧
      (s.LosesUnlock r.exchanges → result = .error (.timeout .unlock c.timeout)) := by
  unfold signPayload
  cases payload.root with
  | error e =>
    have hx : ¬ s.LosesUnlock [] := fun hx => absurd (hl.symm.trans (hx.unlocked rfl)) nofun
    exact ⟨.error (.noRoot e), rfl, ⟨fun _ => hx, fun _ => Or.inl hl⟩, fun h => absurd h hx⟩
  | ok root =>
    obtain ⟨result, he⟩ := run_none_finished (signRoot account c root domain) s
    exact ⟨result, he, exposed_iff_of_requestTrace hs hl (requestTrace_of_finished he)
      (run_passes (signRoot account c root domain) none s)⟩

/-- Unlocks at once, but never says so, and cannot be locked again. -/
def unheard : Scripted :=
  { willing with
    behaving := fun
      | .unlock => [⟨.endless, true, none⟩]
      | .lock => [⟨.lasting 0, false, some (.refused (.stated "stuck"))⟩]
      | _ => [] }

theorem unheard_exposed :
    let r := (signPayload "a" ⟨.ofSeconds 1, [⟨[]⟩]⟩ .unit ⟨Octets.zero 32⟩).run none unheard
    unheard.OffersLocker ∧ unheard.unlocked = false ∧
      r.ending = .finished (.error (.timeout .unlock (.ofSeconds 1))) ∧
      r.account.unlocked = true ∧ unheard.LosesUnlock r.exchanges := by
  have hs : unheard.OffersLocker := ⟨List.cons_ne_nil _ _, fun _ => List.eq_of_mem_singleton⟩
  obtain ⟨result, he, hx, -⟩ := signPayload_exposed_iff hs rfl "a" ⟨.ofSeconds 1, [⟨[]⟩]⟩ .unit
    ⟨Octets.zero 32⟩
  refine ⟨hs, rfl, rfl, rfl, Classical.byContradiction fun hn => ?_⟩
  cases he
  rcases hx.2 hn with hf | hr
  · cases hf
  · exact not_securityRelevant_error rfl hr

end Scripted

end Notary
