import Notary.Proofs.Exchanges
import Notary.Signing

/-! The exchanges of a signing request, stage by stage. Each stage has one constructor for every way
through it, those where the request is dropped included, and the stages are put together as the
request puts them together. Whatever the account answers, the log of a stage is one of these. -/

namespace Notary
open Process

namespace Session

/-- An account that no longer offers to be locked counts as locked. -/
inductive Relocking (t : Duration) (session : Option Session) :
    List Exchange → Ending (Except CallError Unit) → Prop
  | withdrawn : Relocking t session [.answer .locker false] (.finished (.ok ()))
  | ended (w : Wait) (o : Outcome Unit) :
      Relocking t session [.answer .locker true, .ended .lock t w o] (.finished (o.toExcept .lock t))
  | pending (w : Wait) :
      Relocking t session [.answer .locker true, .pending .lock t w] (.dropped session)

/-- Every passphrase of the list was tried, in order, and refused. -/
inductive Refused (t : Duration) : List Passphrase → List Exchange → Prop
  | nil : Refused t [] []
  | cons {ps : List Passphrase} {xs : List Exchange} (p : Passphrase) (w : Wait)
      (e : AccountError) (h : Refused t ps xs) :
      Refused t (p :: ps) (.ended (.unlock p.bytes) t w (.refused e) :: xs)

/-- After some refusals the list is at its end, or a passphrase is not refused. -/
inductive Trying (account : String) (t : Duration) (ps : List Passphrase) (attempt : Nat) :
    List Exchange → Ending (Except Error UnlockState) → Prop
  | exhausted {xs : List Exchange} (h : Refused t ps xs) :
      Trying account t ps attempt xs
        (.finished (.error (.unlockFailed account (attempt + ps.length))))
  | unlocked {qs rest : List Passphrase} {p : Passphrase} {xs : List Exchange} (w : Wait)
      (hps : ps = qs ++ p :: rest) (h : Refused t qs xs) :
      Trying account t ps attempt (xs ++ [.ended (.unlock p.bytes) t w (.returned ())])
        (.finished (.ok .justUnlocked))
  | expired {qs rest : List Passphrase} {p : Passphrase} {xs ys : List Exchange}
      {lock : Ending (Except CallError Unit)} {ending : Ending (Except Error UnlockState)}
      (w : Wait) (hps : ps = qs ++ p :: rest) (h : Refused t qs xs)
      (hl : Relocking t none ys lock)
      (he : ending = lock.map fun _ => .error (.timeout .unlock t)) :
      Trying account t ps attempt (xs ++ .ended (.unlock p.bytes) t w .expired :: ys) ending
  | pending {qs rest : List Passphrase} {p : Passphrase} {xs : List Exchange} (w : Wait)
      (hps : ps = qs ++ p :: rest) (h : Refused t qs xs) :
      Trying account t ps attempt (xs ++ [.pending (.unlock p.bytes) t w]) (.dropped none)

inductive Unlocking (account : String) (c : Config) :
    List Exchange → Ending (Except Error UnlockState) → Prop
  | notLockable : Unlocking account c [.answer .locker false] (.finished (.ok .notLockable))
  | queryRefused (w : Wait) (e : AccountError) :
      Unlocking account c [.answer .locker true, .ended .isUnlocked c.timeout w (.refused e)]
        (.finished (.error (.unlockState account e)))
  | queryExpired (w : Wait) :
      Unlocking account c [.answer .locker true, .ended .isUnlocked c.timeout w .expired]
        (.finished (.error (.timeout .isUnlocked c.timeout)))
  | queryPending (w : Wait) :
      Unlocking account c [.answer .locker true, .pending .isUnlocked c.timeout w] (.dropped none)
  | alreadyUnlocked (w : Wait) :
      Unlocking account c [.answer .locker true, .ended .isUnlocked c.timeout w (.returned true)]
        (.finished (.ok .alreadyUnlocked))
  | locked {xs : List Exchange} {ending : Ending (Except Error UnlockState)} (w : Wait)
      (h : Trying account c.timeout c.passphrases 0 xs ending) :
      Unlocking account c
        (.answer .locker true :: .ended .isUnlocked c.timeout w (.returned false) :: xs) ending

theorem leads_relock {account : String} {t : Duration} {session : Option Session}
    {xs : List Exchange} {ending : Ending (Except CallError Unit)}
    (h : Leads (relock account t session) xs ending) : Relocking t session xs ending := by
  unfold relock at h
  obtain ⟨offered, ys, rfl, h₁⟩ := leads_offers h
  cases offered with
  | false =>
    obtain ⟨rfl, rfl⟩ := leads_pure h₁
    exact .withdrawn
  | true =>
    rcases leads_bounded h₁ with ⟨w, o, zs, rfl, h₂⟩ | ⟨w, rfl, rfl⟩
    · cases o with
      | returned =>
        have h₀ := leads_emit h₂
        obtain ⟨rfl, rfl⟩ := leads_pure h₀
        exact .ended w (.returned ())
      | refused e =>
        obtain ⟨rfl, rfl⟩ := leads_pure h₂
        exact .ended w (.refused e)
      | expired =>
        obtain ⟨rfl, rfl⟩ := leads_pure h₂
        exact .ended w .expired
    · exact .pending w

theorem leads_relockReporting {occasion : Occasion} {account : String} {t : Duration}
    {xs : List Exchange} {ending : Ending Unit}
    (h : Leads (relockReporting occasion account t) xs ending) :
    ∃ e, Relocking t none xs e ∧ ending = e.map fun _ => () := by
  unfold relockReporting at h
  -- A failure is reported, and nothing else comes of it: the exchanges are those of the lock.
  rcases leads_bind h with ⟨ys, zs, result, rfl, h₁, h₂⟩ | ⟨session, rfl, h₁⟩
  · refine ⟨.finished result, ?_, ?_⟩
    · cases result with
      | ok u =>
        obtain ⟨rfl, -⟩ := leads_pure h₂
        simpa only [List.append_nil] using leads_relock h₁
      | error e =>
        cases h₂ with
        | report h₂ =>
          obtain ⟨rfl, -⟩ := leads_pure h₂
          simpa only [List.append_nil] using leads_relock h₁
    · cases result with
      | ok u => exact (leads_pure h₂).2
      | error e =>
        cases h₂ with
        | report h₂ => exact (leads_pure h₂).2
  · exact ⟨.dropped session, leads_relock h₁, rfl⟩

/-- A refusal may stand in front of all that the rest of the list leads to. -/
theorem Trying.cons {account : String} {t : Duration} {attempt : Nat} {p : Passphrase}
    {ps : List Passphrase} {xs : List Exchange} {ending : Ending (Except Error UnlockState)}
    (w : Wait) (e : AccountError) (h : Trying account t ps (attempt + 1) xs ending) :
    Trying account t (p :: ps) attempt (.ended (.unlock p.bytes) t w (.refused e) :: xs) ending := by
  cases h with
  | exhausted h =>
    have hn : attempt + 1 + ps.length = attempt + (p :: ps).length := by
      rw [List.length_cons, Nat.add_assoc, Nat.add_comm 1]
    exact hn ▸ .exhausted (.cons p w e h)
  | unlocked w' hps h => exact .unlocked w' (congrArg (p :: ·) hps) (.cons p w e h)
  | expired w' hps h hl he => exact .expired w' (congrArg (p :: ·) hps) (.cons p w e h) hl he
  | pending w' hps h => exact .pending w' (congrArg (p :: ·) hps) (.cons p w e h)

theorem leads_tryPassphrases {account : String} {t : Duration} {attempt : Nat}
    {ps : List Passphrase} {xs : List Exchange} {ending : Ending (Except Error UnlockState)}
    (h : Leads (tryPassphrases account t attempt ps) xs ending) :
    Trying account t ps attempt xs ending := by
  -- Along the list: only a refusal goes on to the rest of it, with the next number.
  induction ps generalizing attempt xs with
  | nil =>
    obtain ⟨rfl, rfl⟩ := leads_pure h
    exact .exhausted .nil
  | cons p ps ih =>
    unfold tryPassphrases at h
    rcases leads_bounded h with ⟨w, o, ys, rfl, h₁⟩ | ⟨w, rfl, rfl⟩
    · cases o with
      | returned =>
        have h₀ := leads_emit h₁
        obtain ⟨rfl, rfl⟩ := leads_pure h₀
        exact .unlocked w rfl .nil
      | refused e =>
        exact .cons w e (ih (leads_emit h₁))
      | expired =>
        -- Whether the lock that follows works or not, the list is not tried any further.
        rcases leads_bind h₁ with ⟨zs, us, u, rfl, h₂, h₃⟩ | ⟨session, rfl, h₂⟩
        · obtain ⟨rfl, rfl⟩ := leads_pure h₃
          obtain ⟨e, hl, he⟩ := leads_relockReporting h₂
          cases e with
          | finished r =>
            rw [List.append_nil]
            exact .expired w rfl .nil hl rfl
          | dropped s => cases he
        · obtain ⟨e, hl, he⟩ := leads_relockReporting h₂
          cases e with
          | finished r => cases he
          | dropped s =>
            cases he
            exact .expired w rfl .nil hl rfl
    · exact .pending w rfl .nil

theorem leads_unlock {account : String} {c : Config} {xs : List Exchange}
    {ending : Ending (Except Error UnlockState)} (h : Leads (unlock account c) xs ending) :
    Unlocking account c xs ending := by
  unfold unlock at h
  obtain ⟨offered, ys, rfl, h₁⟩ := leads_offers h
  cases offered with
  | false =>
    have h₀ := leads_emit h₁
    obtain ⟨rfl, rfl⟩ := leads_pure h₀
    exact .notLockable
  | true =>
    rcases leads_bounded h₁ with ⟨w, o, zs, rfl, h₂⟩ | ⟨w, rfl, rfl⟩
    · cases o with
      | returned unlocked =>
        cases unlocked with
        | true =>
          have h₀ := leads_emit h₂
          obtain ⟨rfl, rfl⟩ := leads_pure h₀
          exact .alreadyUnlocked w
        | false => exact .locked w (leads_tryPassphrases h₂)
      | refused e =>
        obtain ⟨rfl, rfl⟩ := leads_pure h₂
        exact .queryRefused w e
      | expired =>
        obtain ⟨rfl, rfl⟩ := leads_pure h₂
        exact .queryExpired w
    · exact .queryPending w

end Session

namespace Process

/-- The call by which an order is carried out. -/
def Order.exchange (limit : Duration) (w : Wait) (o : Option (Outcome Signature)) :
    Order → Exchange
  | ofRoot root domain => .call ⟨.signGeneric root domain, limit, w, o⟩
  | ofDigest digest => .call ⟨.sign digest, limit, w, o⟩

/-- What the signer's part of a request comes to by itself. -/
def Order.result (limit : Duration) (o : Outcome Signature) : Except Error Signature :=
  (o.toExcept .sign limit).mapError (CallError.toError .signing)

/-- What a request comes to that has to lock the account again. -/
def settled (account : String) (outcome : Except Error Signature) :
    Except CallError Unit → Except Error Signature
  | .ok () => outcome
  | .error source => .error (.relockFailed account outcome.toOption source)

/-- The interface that was chosen may be withdrawn by the time it is to be used. -/
inductive Signing (account : String) (s : Session) (order : Order) :
    List Exchange → Ending (Except Error Signature) → Prop
  | withdrawn :
      Signing account s order [.answer order.capability false]
        (.finished (.error (.unsupportedCapability account order.capability)))
  | ended (w : Wait) (o : Outcome Signature) :
      Signing account s order
        [.answer order.capability true, order.exchange s.timeout w (some o)]
        (.finished (Order.result s.timeout o))
  | pending (w : Wait) :
      Signing account s order [.answer order.capability true, order.exchange s.timeout w none]
        (.dropped (some s))

open Session (Unlocking Relocking)

inductive InSession (account : String) (c : Config) (order : Order) :
    List Exchange → Ending (Except Error Signature) → Prop
  | refused {xs : List Exchange} {e : Error} (h : Unlocking account c xs (.finished (.error e))) :
      InSession account c order xs (.finished (.error e))
  | unlocking {xs : List Exchange} {session : Option Session}
      (h : Unlocking account c xs (.dropped session)) :
      InSession account c order xs (.dropped session)
  | unowed {xs ys : List Exchange} {state : UnlockState}
      {ending : Ending (Except Error Signature)}
      (h : Unlocking account c xs (.finished (.ok state))) (hs : state ≠ .justUnlocked)
      (hg : Signing account ⟨state, c.timeout⟩ order ys ending) :
      InSession account c order (xs ++ ys) ending
  | signing {xs ys : List Exchange} {session : Option Session}
      (h : Unlocking account c xs (.finished (.ok .justUnlocked)))
      (hg : Signing account ⟨.justUnlocked, c.timeout⟩ order ys (.dropped session)) :
      InSession account c order (xs ++ ys) (.dropped session)
  | owed {xs ys zs : List Exchange} {outcome : Except Error Signature}
      {lock : Ending (Except CallError Unit)} {ending : Ending (Except Error Signature)}
      (h : Unlocking account c xs (.finished (.ok .justUnlocked)))
      (hg : Signing account ⟨.justUnlocked, c.timeout⟩ order ys (.finished outcome))
      (hl : Relocking c.timeout (some ⟨.justUnlocked, c.timeout⟩) zs lock)
      (he : ending = lock.map (settled account outcome)) :
      InSession account c order (xs ++ ys ++ zs) ending

/-- The account is asked for all it offers before anything else happens to it. -/
inductive OfRoot (account : String) (c : Config) (root : Root) (domain : Domain) :
    List Exchange → Ending (Except Error Signature) → Prop
  | zeroTimeout (h : c.timeout = ⟨0⟩) :
      OfRoot account c root domain [] (.finished (.error .zeroTimeout))
  | incapable (h : c.timeout ≠ ⟨0⟩) (l : Bool) :
      OfRoot account c root domain
        [.answer .locker l, .answer .protectingSigner false, .answer .signer false]
        (.finished (.error (.unsupportedCapability account .signer)))
  | protecting {xs : List Exchange} {ending : Ending (Except Error Signature)}
      (h : c.timeout ≠ ⟨0⟩) (l g : Bool)
      (hi : InSession account c (.ofRoot root domain) xs ending) :
      OfRoot account c root domain
        (.answer .locker l :: .answer .protectingSigner true :: .answer .signer g :: xs) ending
  | plain {xs : List Exchange} {ending : Ending (Except Error Signature)}
      (h : c.timeout ≠ ⟨0⟩) (l : Bool)
      (hi : InSession account c (.ofDigest (signingDigest root domain)) xs ending) :
      OfRoot account c root domain
        (.answer .locker l :: .answer .protectingSigner false :: .answer .signer true :: xs) ending

theorem leads_dispatch {account : String} {s : Session} {order : Order} {xs : List Exchange}
    {ending : Ending (Except Error Signature)} (h : Leads (dispatch account s order) xs ending) :
    Signing account s order xs ending := by
  unfold dispatch at h
  obtain ⟨offered, ys, rfl, h₁⟩ := leads_offers h
  cases offered with
  | false =>
    obtain ⟨rfl, rfl⟩ := leads_pure h₁
    exact .withdrawn
  | true =>
    have h₂ := leads_emit h₁
    cases order with
    | ofRoot root domain =>
      rcases leads_bounded h₂ with ⟨w, o, zs, rfl, h₃⟩ | ⟨w, rfl, rfl⟩
      · obtain ⟨rfl, rfl⟩ := leads_pure h₃
        exact .ended w o
      · exact .pending w
    | ofDigest digest =>
      rcases leads_bounded h₂ with ⟨w, o, zs, rfl, h₃⟩ | ⟨w, rfl, rfl⟩
      · obtain ⟨rfl, rfl⟩ := leads_pure h₃
        exact .ended w o
      · exact .pending w

theorem leads_settle {account : String} {outcome : Except Error Signature} {source : CallError}
    {xs : List Exchange} {ending : Ending (Except Error Signature)}
    (h : Leads (settle account outcome source) xs ending) :
    xs = [] ∧ ending = .finished (settled account outcome (.error source)) := by
  unfold settle at h
  have h₁ := leads_emit h
  cases outcome with
  | ok signature => exact leads_pure h₁
  | error e => exact leads_pure (leads_emit h₁)

theorem leads_begin {account : String} {c : Config} {xs : List Exchange}
    {ending : Ending (Except Error Session)} (h : Leads (Session.begin account c) xs ending) :
    ∃ e, Unlocking account c xs e ∧
      ending = e.map fun result => result.map fun state => ⟨state, c.timeout⟩ := by
  unfold Session.begin at h
  rcases leads_bind h with ⟨ys, zs, result, rfl, h₁, h₂⟩ | ⟨session, rfl, h₁⟩
  · refine ⟨.finished result, ?_⟩
    cases result with
    | ok state =>
      obtain ⟨rfl, rfl⟩ := leads_pure h₂
      exact ⟨by simpa only [List.append_nil] using Session.leads_unlock h₁, rfl⟩
    | error e =>
      obtain ⟨rfl, rfl⟩ := leads_pure h₂
      exact ⟨by simpa only [List.append_nil] using Session.leads_unlock h₁, rfl⟩
  · exact ⟨.dropped session, Session.leads_unlock h₁, rfl⟩

theorem leads_signInSession {account : String} {c : Config} {order : Order} {xs : List Exchange}
    {ending : Ending (Except Error Signature)}
    (h : Leads (signInSession account c order) xs ending) : InSession account c order xs ending := by
  unfold signInSession at h
  rcases leads_bind h with ⟨ys, zs, result, rfl, h₁, h₂⟩ | ⟨session, rfl, h₁⟩
  · obtain ⟨e, hu, he⟩ := leads_begin h₁
    cases e with
    | dropped session => cases he
    | finished opened =>
      cases opened with
      | error e =>
        cases he
        obtain ⟨rfl, rfl⟩ := leads_pure h₂
        rw [List.append_nil]
        exact .refused hu
      | ok state =>
        cases he
        rcases leads_bind h₂ with ⟨us, vs, outcome, rfl, h₃, h₄⟩ | ⟨session, rfl, h₃⟩
        · -- Only a session that unlocked the account has a lock to do.
          by_cases hs : state = .justUnlocked
          · subst hs
            rw [← List.append_assoc]
            rcases leads_bind h₄ with ⟨as, bs, lock, rfl, h₅, h₆⟩ | ⟨session, rfl, h₅⟩
            · have hl := Session.leads_relock h₅
              cases lock with
              | ok u =>
                obtain ⟨rfl, rfl⟩ := leads_pure h₆
                rw [List.append_nil]
                exact .owed hu (leads_dispatch h₃) hl rfl
              | error source =>
                obtain ⟨rfl, rfl⟩ := leads_settle h₆
                rw [List.append_nil]
                exact .owed hu (leads_dispatch h₃) hl rfl
            · exact .owed hu (leads_dispatch h₃) (Session.leads_relock h₅) rfl
          · have hc : Session.close account ⟨state, c.timeout⟩ = pure (.ok ()) := by
              cases state with
              | justUnlocked => exact absurd rfl hs
              | notLockable => rfl
              | alreadyUnlocked => rfl
            rw [hc] at h₄
            obtain ⟨rfl, rfl⟩ := leads_pure h₄
            rw [List.append_nil]
            exact .unowed hu hs (leads_dispatch h₃)
        · by_cases hs : state = .justUnlocked
          · subst hs
            exact .signing hu (leads_dispatch h₃)
          · exact .unowed hu hs (leads_dispatch h₃)
  · obtain ⟨e, hu, he⟩ := leads_begin h₁
    cases e with
    | finished opened => cases he
    | dropped session =>
      cases he
      exact .unlocking hu

theorem leads_signRoot {account : String} {c : Config} {root : Root} {domain : Domain}
    {xs : List Exchange} {ending : Ending (Except Error Signature)}
    (h : Leads (signRoot account c root domain) xs ending) :
    OfRoot account c root domain xs ending := by
  unfold signRoot at h
  by_cases ht : c.timeout = ⟨0⟩
  · rw [Config.validate_eq_error_iff.2 ⟨ht, rfl⟩] at h
    obtain ⟨rfl, rfl⟩ := leads_pure h
    exact .zeroTimeout ht
  · rw [Config.validate_eq_ok_iff.2 ht] at h
    obtain ⟨l, p, g, ys, rfl, h₁⟩ := leads_capabilities h
    cases p with
    | true => exact .protecting ht l g (leads_signInSession h₁)
    | false =>
      have h₂ := leads_emitAll h₁
      cases g with
      | true => exact .plain ht l (leads_signInSession h₂)
      | false =>
        obtain ⟨rfl, rfl⟩ := leads_pure h₂
        exact .incapable ht l

end Process

end Notary
