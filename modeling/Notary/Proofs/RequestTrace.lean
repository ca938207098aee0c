import Notary.Proofs.SessionTrace
import Notary.Scripted

/-! The whole log of a signing request that is left to run to its end, and what it comes to. There
is one constructor for each course that a request may take; no account, whatever its answers, can
make it take another. A signing call or a lock is left out only where the account, asked at that
moment, does not offer it. -/

namespace Notary.Process
open Session (Refused Relocking)

/-- The courses of a request that has found out how the account signs. -/
inductive SessionTrace (account : String) (c : Config) (order : Order) :
    List Exchange → Except Error Signature → Prop
  | notLockable {xs : List Exchange} {outcome : Except Error Signature}
      (h : Signing account ⟨.notLockable, c.timeout⟩ order xs (.finished outcome)) :
      SessionTrace account c order (.answer .locker false :: xs) outcome
  | queryRefused (w : Wait) (e : AccountError) :
      SessionTrace account c order
        [.answer .locker true, .ended .isUnlocked c.timeout w (.refused e)]
        (.error (.unlockState account e))
  | queryExpired (w : Wait) :
      SessionTrace account c order
        [.answer .locker true, .ended .isUnlocked c.timeout w .expired]
        (.error (.timeout .isUnlocked c.timeout))
  | alreadyUnlocked {xs : List Exchange} {outcome : Except Error Signature} (w : Wait)
      (h : Signing account ⟨.alreadyUnlocked, c.timeout⟩ order xs (.finished outcome)) :
      SessionTrace account c order
        (.answer .locker true :: .ended .isUnlocked c.timeout w (.returned true) :: xs) outcome
  | allRefused {xs : List Exchange} (w : Wait) (h : Refused c.timeout c.passphrases xs) :
      SessionTrace account c order
        (.answer .locker true :: .ended .isUnlocked c.timeout w (.returned false) :: xs)
        (.error (.unlockFailed account c.passphrases.length))
  | unlockExpired {qs rest : List Passphrase} {p : Passphrase} {xs ys : List Exchange}
      {lock : Except CallError Unit} (w w' : Wait) (hps : c.passphrases = qs ++ p :: rest)
      (h : Refused c.timeout qs xs) (hl : Relocking c.timeout none ys (.finished lock)) :
      SessionTrace account c order
        (.answer .locker true :: .ended .isUnlocked c.timeout w (.returned false) ::
          (xs ++ .ended (.unlock p.bytes) c.timeout w' .expired :: ys))
        (.error (.timeout .unlock c.timeout))
  | unlocked {qs rest : List Passphrase} {p : Passphrase} {xs ys zs : List Exchange}
      {outcome : Except Error Signature} {lock : Except CallError Unit} (w w' : Wait)
      (hps : c.passphrases = qs ++ p :: rest) (h : Refused c.timeout qs xs)
      (hg : Signing account ⟨.justUnlocked, c.timeout⟩ order ys (.finished outcome))
      (hl : Relocking c.timeout (some ⟨.justUnlocked, c.timeout⟩) zs (.finished lock)) :
      SessionTrace account c order
        (.answer .locker true :: .ended .isUnlocked c.timeout w (.returned false) ::
          (xs ++ .ended (.unlock p.bytes) c.timeout w' (.returned ()) :: (ys ++ zs)))
        (settled account outcome lock)

/-- The courses of a request as a whole. -/
inductive RequestTrace (account : String) (c : Config) (root : Root) (domain : Domain) :
    List Exchange → Except Error Signature → Prop
  | zeroTimeout (h : c.timeout = ⟨0⟩) :
      RequestTrace account c root domain [] (.error .zeroTimeout)
  | incapable (h : c.timeout ≠ ⟨0⟩) (l : Bool) :
      RequestTrace account c root domain
        [.answer .locker l, .answer .protectingSigner false, .answer .signer false]
        (.error (.unsupportedCapability account .signer))
  | protecting {xs : List Exchange} {result : Except Error Signature}
      (h : c.timeout ≠ ⟨0⟩) (l g : Bool)
      (hs : SessionTrace account c (.ofRoot root domain) xs result) :
      RequestTrace account c root domain
        (.answer .locker l :: .answer .protectingSigner true :: .answer .signer g :: xs) result
  | plain {xs : List Exchange} {result : Except Error Signature}
      (h : c.timeout ≠ ⟨0⟩) (l : Bool)
      (hs : SessionTrace account c (.ofDigest (signingDigest root domain)) xs result) :
      RequestTrace account c root domain
        (.answer .locker l :: .answer .protectingSigner false :: .answer .signer true :: xs) result

theorem InSession.trace {account : String} {c : Config} {order : Order} {xs : List Exchange}
    {result : Except Error Signature} (h : InSession account c order xs (.finished result)) :
    SessionTrace account c order xs result := by
  cases h with
  | refused h =>
    cases h with
    | queryRefused w e => exact .queryRefused w e
    | queryExpired w => exact .queryExpired w
    | locked w h =>
      cases h with
      | exhausted h =>
        rw [Nat.zero_add]
        exact .allRefused w h
      | expired w' hps h hl he =>
        obtain ⟨lock, rfl, he⟩ := Ending.finished_eq_map_iff.1 he
        cases he
        exact .unlockExpired w w' hps h hl
  | unowed h hs hg =>
    cases h with
    | notLockable => exact .notLockable hg
    | alreadyUnlocked w => exact .alreadyUnlocked w hg
    | locked w h =>
      cases h with
      | unlocked w' hps h => exact absurd rfl hs
      | expired w' hps h hl he =>
        obtain ⟨lock, -, he⟩ := Ending.finished_eq_map_iff.1 he
        cases he
  | owed h hg hl he =>
    obtain ⟨lock, rfl, rfl⟩ := Ending.finished_eq_map_iff.1 he
    cases h with
    | locked w h =>
      cases h with
      | unlocked w' hps h =>
        simpa only [List.cons_append, List.append_assoc, List.nil_append] using
          SessionTrace.unlocked w w' hps h hg hl
      | expired w' hps h hl he =>
        obtain ⟨lock, -, he⟩ := Ending.finished_eq_map_iff.1 he
        cases he

theorem OfRoot.trace {account : String} {c : Config} {root : Root} {domain : Domain}
    {xs : List Exchange} {result : Except Error Signature}
    (h : OfRoot account c root domain xs (.finished result)) :
    RequestTrace account c root domain xs result := by
  cases h with
  | zeroTimeout h => exact .zeroTimeout h
  | incapable h l => exact .incapable h l
  | protecting h l g hi => exact .protecting h l g hi.trace
  | plain h l hi => exact .plain h l hi.trace

theorem requestTrace_of_finished {σ : Type} [Account σ] {account : String} {c : Config}
    {root : Root} {domain : Domain} {left : Option Nat} {s : σ} {result : Except Error Signature}
    (h : ((signRoot account c root domain).run left s).ending = .finished result) :
    RequestTrace account c root domain ((signRoot account c root domain).run left s).exchanges
      result := by
  have ht := leads_signRoot (run_leads (signRoot account c root domain) left s)
  rw [h] at ht
  exact ht.trace

/-- Every request that is not dropped comes to its end by one of these courses. -/
theorem signRoot_requestTrace {σ : Type} [Account σ] (account : String) (c : Config) (root : Root)
    (domain : Domain) (s : σ) :
    ∃ result, ((signRoot account c root domain).run none s).ending = .finished result ∧
      RequestTrace account c root domain ((signRoot account c root domain).run none s).exchanges
        result := by
  obtain ⟨result, h⟩ := run_none_finished (signRoot account c root domain) s
  exact ⟨result, h, requestTrace_of_finished h⟩

end Notary.Process

namespace Notary.Scripted
open Process

/-- Locked under the empty passphrase; offers everything and does at once what it is asked. -/
def willing : Scripted where
  name := "a"
  keypair := ⟨Octets.zero 32⟩
  publishesKey := true
  composite := none
  passphrase := []
  unlocked := false
  offering _ := [true]
  behaving _ := []

/-- Offers to be unlocked, but by the time the lock is due no longer to be locked. -/
def withdrawing : Scripted :=
  { willing with
    offering := fun
      | .locker => [true, true, false]
      | _ => [true] }

/-- An unlock that succeeded is not always followed by a lock. -/
theorem withdrawing_not_relocked :
    let r := (signRoot "a" ⟨.ofSeconds 1, [⟨[]⟩]⟩ ⟨Octets.zero 32⟩ ⟨Octets.zero 32⟩).run none
      withdrawing
    .ended (.unlock []) (.ofSeconds 1) (.lasting 0) (.returned ()) ∈ r.exchanges ∧
      r.requests = [.isUnlocked, .unlock [], .signGeneric ⟨Octets.zero 32⟩ ⟨Octets.zero 32⟩] ∧
      r.account.unlocked = true :=
  ⟨List.mem_of_getElem? (i := 5) rfl, rfl, rfl⟩

end Notary.Scripted
