import Notary.Proofs.Exposure

/-! What a request comes to, read off the answers that it got. The signing call and the lock that
closes the session end each in its own way, and the result has to tell of both: a signature that was
returned in time is never lost, none is made up, and a lock that was missed is always named. -/

namespace Notary

namespace Exchange

/-- How a signing call ended. -/
def signing? : Exchange → Option (Outcome Signature)
  | call ⟨.sign _, _, _, o⟩ => o
  | call ⟨.signGeneric _ _, _, _, o⟩ => o
  | _ => none

/-- The error that the signer's part comes to by this exchange: the signer is not there any more, or
the call to it fails. -/
def signFailure? (account : String) (limit : Duration) : Exchange → Option Error
  | answer .locker _ => none
  | answer c offered => if offered then none else some (.unsupportedCapability account c)
  | call k =>
    match (call k).signing? with
    | some (.refused e) => some (.signing e)
    | some .expired => some (.timeout .sign limit)
    | _ => none

/-- What came of a lock. -/
def locking? : Exchange → Option (Except CallError Unit)
  | call ⟨.lock, t, _, some o⟩ => some (o.toExcept .lock t)
  | _ => none

/-- An unlock that was seen to succeed. -/
def unlocks : Exchange → Bool
  | call ⟨.unlock _, _, _, some (.returned _)⟩ => true
  | _ => false

/-- No part of signing. -/
structure Silent (x : Exchange) : Prop where
  signing : x.signing? = none
  failure : ∀ account limit, x.signFailure? account limit = none

/-- Nor does it open a session. -/
structure Idle (x : Exchange) : Prop extends x.Silent where
  unlocks : x.unlocks = false

theorem silent_of_unlocks {x : Exchange} (h : x.unlocks = true) : x.Silent := by
  unfold unlocks at h
  split at h
  · exact ⟨rfl, fun _ _ => rfl⟩
  · cases h

theorem idle_answer_locker (offered : Bool) : (answer .locker offered).Idle :=
  ⟨⟨rfl, fun _ _ => rfl⟩, rfl⟩

theorem idle_isUnlocked (limit : Duration) (w : Wait) (o : Outcome Bool) :
    (ended .isUnlocked limit w o).Idle := ⟨⟨rfl, fun _ _ => rfl⟩, rfl⟩

theorem idle_lock (limit : Duration) (w : Wait) (o : Outcome Unit) :
    (ended .lock limit w o).Idle := ⟨⟨rfl, fun _ _ => rfl⟩, rfl⟩

theorem idle_unlock {limit : Duration} {w : Wait} {o : Outcome Unit} (p : List UInt8)
    (h : o ≠ .returned ()) : (ended (.unlock p) limit w o).Idle := by
  refine ⟨⟨rfl, fun _ _ => rfl⟩, ?_⟩
  cases o with
  | returned u => exact absurd rfl h
  | refused e => rfl
  | expired => rfl

end Exchange

theorem Session.Relocking.error_iff {t : Duration} {session : Option Session} {xs : List Exchange}
    {lock : Except CallError Unit} (h : Session.Relocking t session xs (.finished lock))
    (source : CallError) : lock = .error source ↔ ∃ x ∈ xs, x.locking? = some (.error source) := by
  cases h with
  | withdrawn => simp [Exchange.locking?]
  | ended w o => simp [Exchange.locking?, Exchange.ended]

namespace Process
open Session (Refused Relocking)

/-- What follows the unlock that opened the session, if one did. -/
def afterUnlock : List Exchange → List Exchange
  | [] => []
  | x :: xs => if x.unlocks then xs else afterUnlock xs

/-- A signing call returned this signature in time. -/
def Signed (xs : List Exchange) (g : Signature) : Prop :=
  ∃ x ∈ xs, x.signing? = some (.returned g)

/-- The signer's part came to this error. -/
def SignFailed (account : String) (limit : Duration) (xs : List Exchange) (e : Error) : Prop :=
  ∃ x ∈ xs, x.signFailure? account limit = some e

/-- An unlock succeeded, and the lock that was to close its session came to this failure. -/
def RelockMissed (xs : List Exchange) (source : CallError) : Prop :=
  ∃ x ∈ afterUnlock xs, x.locking? = some (.error source)

/-- The caller can get at this signature, in the result itself or in its error. -/
def Obtainable (result : Except Error Signature) (g : Signature) : Prop :=
  result = .ok g ∨ ∃ e, result = .error e ∧ e.signature? = some g

section
variable {xs ys : List Exchange} {account : String} {limit : Duration}

theorem signed_append {g : Signature} : Signed (xs ++ ys) g ↔ Signed xs g ∨ Signed ys g := by
  simp only [Signed, List.mem_append, or_and_right, exists_or]

theorem signFailed_append {e : Error} : SignFailed account limit (xs ++ ys) e ↔
    SignFailed account limit xs e ∨ SignFailed account limit ys e := by
  simp only [SignFailed, List.mem_append, or_and_right, exists_or]

theorem not_signed (h : ∀ x ∈ xs, x.Silent) (g : Signature) : ¬ Signed xs g := by
  rintro ⟨x, hx, hs⟩
  cases (h x hx).signing.symm.trans hs

theorem not_signFailed (h : ∀ x ∈ xs, x.Silent) (e : Error) : ¬ SignFailed account limit xs e := by
  rintro ⟨x, hx, hf⟩
  cases ((h x hx).failure account limit).symm.trans hf

theorem afterUnlock_append (h : ∀ x ∈ xs, x.unlocks = false) :
    afterUnlock (xs ++ ys) = afterUnlock ys := by
  induction xs with
  | nil => rfl
  | cons x xs ih =>
    obtain ⟨hx, hxs⟩ := List.forall_mem_cons.1 h
    rw [List.cons_append, afterUnlock, hx]
    exact ih hxs

theorem not_relockMissed (h : ∀ x ∈ xs, x.unlocks = false) (source : CallError) :
    ¬ RelockMissed xs source := by
  have ha : afterUnlock xs = [] := by
    have hn : afterUnlock (xs ++ []) = [] := afterUnlock_append h
    rwa [List.append_nil] at hn
  rintro ⟨x, hx, -⟩
  rw [ha] at hx
  cases hx

end

/-- All refusals together: nothing is signed, and nothing is unlocked. -/
theorem idle_of_refused {t : Duration} {ps : List Passphrase} {xs : List Exchange}
    (h : Refused t ps xs) : ∀ x ∈ xs, x.Idle := by
  induction h with
  | nil => exact List.forall_mem_nil _
  | cons p w e h ih => exact List.forall_mem_cons.2 ⟨Exchange.idle_unlock p.bytes nofun, ih⟩

theorem idle_of_relocking {t : Duration} {session : Option Session} {xs : List Exchange}
    {lock : Except CallError Unit} (h : Relocking t session xs (.finished lock)) :
    ∀ x ∈ xs, x.Idle := by
  cases h with
  | withdrawn => exact List.forall_mem_singleton.2 (Exchange.idle_answer_locker false)
  | ended w o =>
    refine List.forall_mem_cons.2 ⟨Exchange.idle_answer_locker true, ?_⟩
    exact List.forall_mem_singleton.2 (Exchange.idle_lock t w o)

/-- How signing and locking lie in the log of a request: they are not reached, or the signer's part
stands at the end of it, or the lock of the session follows that. -/
inductive Course (account : String) (limit : Duration) :
    List Exchange → Except Error Signature → Prop
  | early {xs : List Exchange} {e : Error} (hx : ∀ x ∈ xs, x.Idle)
      (he : e.isSecurityRelevant = false) : Course account limit xs (.error e)
  | unowed {xs ys : List Exchange} {state : UnlockState} {order : Order}
      {outcome : Except Error Signature} (hx : ∀ x ∈ xs, x.Idle)
      (hg : Signing account ⟨state, limit⟩ order ys (.finished outcome)) :
      Course account limit (xs ++ ys) outcome
  | owed {xs ys zs : List Exchange} {x : Exchange} {order : Order}
      {outcome : Except Error Signature} {lock : Except CallError Unit} (hx : ∀ x ∈ xs, x.Idle)
      (hu : x.unlocks = true)
      (hg : Signing account ⟨.justUnlocked, limit⟩ order ys (.finished outcome))
      (hl : Relocking limit (some ⟨.justUnlocked, limit⟩) zs (.finished lock)) :
      Course account limit (xs ++ x :: (ys ++ zs)) (settled account outcome lock)

theorem idle_query (limit : Duration) (w : Wait) (o : Outcome Bool) :
    ∀ x ∈ [.answer .locker true, .ended .isUnlocked limit w o], Exchange.Idle x :=
  List.forall_mem_cons.2 ⟨Exchange.idle_answer_locker true,
    List.forall_mem_singleton.2 (Exchange.idle_isUnlocked limit w o)⟩

theorem SessionTrace.course {account : String} {c : Config} {order : Order} {xs : List Exchange}
    {result : Except Error Signature} (h : SessionTrace account c order xs result) :
    Course account c.timeout xs result := by
  cases h with
  | notLockable h =>
    have hx : ∀ x ∈ [Exchange.answer .locker false], x.Idle :=
      List.forall_mem_singleton.2 (Exchange.idle_answer_locker false)
    exact .unowed hx h
  | queryRefused w e => exact .early (idle_query c.timeout w (.refused e)) rfl
  | queryExpired w => exact .early (idle_query c.timeout w .expired) rfl
  | alreadyUnlocked w h => exact .unowed (idle_query c.timeout w (.returned true)) h
  | allRefused w h =>
    have hq := idle_query c.timeout w (.returned false)
    exact .early (List.forall_mem_append.2 ⟨hq, idle_of_refused h⟩) rfl
  | @unlockExpired qs rest p xs ys lock w w' hps h hl =>
    have hq := idle_query c.timeout w (.returned false)
    have hu : (Exchange.ended (.unlock p.bytes) c.timeout w' .expired).Idle :=
      Exchange.idle_unlock p.bytes nofun
    have hx := List.forall_mem_append.2
      ⟨idle_of_refused h, List.forall_mem_cons.2 ⟨hu, idle_of_relocking hl⟩⟩
    exact .early (List.forall_mem_append.2 ⟨hq, hx⟩) rfl
  | unlocked w w' hps h hg hl =>
    have hq := idle_query c.timeout w (.returned false)
    exact .owed (List.forall_mem_append.2 ⟨hq, idle_of_refused h⟩) rfl hg hl

/-- What the signer's part comes to is what its exchanges say. -/
theorem Signing.ok_iff {account : String} {s : Session} {order : Order} {xs : List Exchange}
    {outcome : Except Error Signature} (h : Signing account s order xs (.finished outcome))
    (g : Signature) : outcome = .ok g ↔ Signed xs g := by
  cases h with
  | withdrawn =>
    refine ⟨nofun, ?_⟩
    rintro ⟨x, hx, hs⟩
    cases List.mem_singleton.1 hx
    cases hs
  | ended w o =>
    have hs : Signed [.answer order.capability true, order.exchange s.timeout w (some o)] g ↔
        o = .returned g := by
      cases order <;> simp [Signed, Order.exchange, Exchange.signing?]
    rw [hs]
    cases o with
    | returned g' =>
      have hr : Order.result s.timeout (.returned g') = .ok g' := rfl
      rw [hr, Except.ok.injEq, Outcome.returned.injEq]
    | refused e => exact ⟨nofun, nofun⟩
    | expired => exact ⟨nofun, nofun⟩

theorem Signing.error_of_signFailed {account : String} {s : Session} {order : Order}
    {xs : List Exchange} {outcome : Except Error Signature} {e : Error}
    (h : Signing account s order xs (.finished outcome))
    (hf : SignFailed account s.timeout xs e) : outcome = .error e := by
  obtain ⟨x, hx, hf⟩ := hf
  cases h with
  | withdrawn =>
    cases List.mem_singleton.1 hx
    cases order <;> exact congrArg _ (Option.some.inj hf)
  | ended w o =>
    rcases List.mem_cons.1 hx with rfl | hx
    · cases order <;> cases hf
    · cases List.mem_singleton.1 hx
      cases o with
      | returned g => cases order <;> cases hf
      | refused e' => cases order <;> exact congrArg _ (Option.some.inj hf)
      | expired => cases order <;> exact congrArg _ (Option.some.inj hf)

theorem Signing.signFailed_of_error {account : String} {s : Session} {order : Order}
    {xs : List Exchange} {e : Error} (h : Signing account s order xs (.finished (.error e))) :
    SignFailed account s.timeout xs e := by
  generalize hr : Except.error e = outcome at h
  cases h with
  | withdrawn =>
    cases hr
    refine ⟨_, List.mem_singleton_self _, ?_⟩
    cases order <;> rfl
  | ended w o =>
    refine ⟨_, List.mem_cons_of_mem _ (List.mem_singleton_self _), ?_⟩
    cases o with
    | returned g => cases hr
    | refused e' => cases order <;> cases hr <;> rfl
    | expired => cases order <;> cases hr <;> rfl

/-- The signer's part neither unlocks nor locks. -/
theorem Signing.unlocks_locking {account : String} {s : Session} {order : Order}
    {xs : List Exchange} {ending : Ending (Except Error Signature)}
    (h : Signing account s order xs ending) :
    ∀ x ∈ xs, x.unlocks = false ∧ x.locking? = none := by
  cases h with
  | withdrawn => exact List.forall_mem_singleton.2 ⟨rfl, rfl⟩
  | ended w o =>
    refine List.forall_mem_cons.2 ⟨⟨rfl, rfl⟩, List.forall_mem_singleton.2 ?_⟩
    cases order <;> exact ⟨rfl, rfl⟩
  | pending w =>
    refine List.forall_mem_cons.2 ⟨⟨rfl, rfl⟩, List.forall_mem_singleton.2 ?_⟩
    cases order <;> exact ⟨rfl, rfl⟩

/-- The exchanges say what came of the signer's part, and what of the lock that closed the session;
where none was due, it counts as done. -/
structure ComesTo (account : String) (limit : Duration) (xs : List Exchange)
    (outcome : Except Error Signature) (lock : Except CallError Unit) : Prop where
  signed : ∀ g, Signed xs g ↔ outcome = .ok g
  failed : ∀ e, SignFailed account limit xs e → outcome = .error e
  missed : ∀ source, RelockMissed xs source ↔ lock = .error source
  harmless : ¬ SecurityRelevant outcome

theorem Course.comesTo {account : String} {limit : Duration} {xs : List Exchange}
    {result : Except Error Signature} (h : Course account limit xs result) :
    ∃ outcome lock, result = settled account outcome lock ∧
      ComesTo account limit xs outcome lock := by
  cases h with
  | @early xs e hx he =>
    have hs : ∀ x ∈ xs, x.Silent := fun x hm => (hx x hm).toSilent
    have hu : ∀ x ∈ xs, x.unlocks = false := fun x hm => (hx x hm).unlocks
    refine ⟨.error e, .ok (), rfl, ?_, ?_, ?_, not_securityRelevant_error he⟩
    · exact fun g => ⟨fun h => absurd h (not_signed hs g), nofun⟩
    · exact fun e h => absurd h (not_signFailed hs e)
    · exact fun source => ⟨fun h => absurd h (not_relockMissed hu source), nofun⟩
  | @unowed xs ys state order _ hx hg =>
    have hs : ∀ x ∈ xs, x.Silent := fun x hm => (hx x hm).toSilent
    have hu : ∀ x ∈ xs ++ ys, x.unlocks = false := List.forall_mem_append.2
      ⟨fun x hm => (hx x hm).unlocks, fun x hm => (hg.unlocks_locking x hm).1⟩
    refine ⟨result, .ok (), rfl, ?_, ?_, ?_, hg.not_securityRelevant⟩
    · intro g
      rw [signed_append, or_iff_right (not_signed hs g)]
      exact (hg.ok_iff g).symm
    · intro e h
      rw [signFailed_append, or_iff_right (not_signFailed hs e)] at h
      exact hg.error_of_signFailed h
    · exact fun source => ⟨fun h => absurd h (not_relockMissed hu source), nofun⟩
  | @owed xs ys zs x order outcome lock hx hu hg hl =>
    -- Before the signer's part stands what opened the session, after it what closed it.
    have hlog : xs ++ x :: (ys ++ zs) = (xs ++ [x]) ++ (ys ++ zs) := by
      rw [List.append_assoc, List.singleton_append]
    have hb : ∀ y ∈ xs ++ [x], y.Silent := List.forall_mem_append.2
      ⟨fun y hm => (hx y hm).toSilent, List.forall_mem_singleton.2 (Exchange.silent_of_unlocks hu)⟩
    have ha : ∀ y ∈ zs, y.Silent := fun y hm => (idle_of_relocking hl y hm).toSilent
    refine ⟨outcome, lock, rfl, ?_, ?_, ?_, hg.not_securityRelevant⟩
    · intro g
      rw [hlog, signed_append, or_iff_right (not_signed hb g), signed_append,
        or_iff_left (not_signed ha g)]
      exact (hg.ok_iff g).symm
    · intro e h
      rw [hlog, signFailed_append, or_iff_right (not_signFailed hb e), signFailed_append,
        or_iff_left (not_signFailed ha e)] at h
      exact hg.error_of_signFailed h
    · intro source
      have hopen : afterUnlock (xs ++ x :: (ys ++ zs)) = ys ++ zs := by
        rw [afterUnlock_append fun y hm => (hx y hm).unlocks, afterUnlock, if_pos hu]
      have hys : ¬ ∃ y ∈ ys, y.locking? = some (.error source) :=
        fun ⟨y, hm, hy⟩ => nomatch (hg.unlocks_locking y hm).2.symm.trans hy
      rw [RelockMissed, hopen, hl.error_iff source]
      simp only [List.mem_append, or_and_right, exists_or, hys, false_or]

/-- The result of a request tells what its exchanges say. -/
structure Settles (account : String) (limit : Duration) (xs : List Exchange)
    (result : Except Error Signature) : Prop where
  ok_iff : ∀ g, result = .ok g ↔ Signed xs g ∧ ∀ source, ¬ RelockMissed xs source
  relockFailed_iff : ∀ a g source, result = .error (.relockFailed a g source) ↔
    a = account ∧ RelockMissed xs source ∧ ∀ g', g = some g' ↔ Signed xs g'
  /-- A request begins with three questions that are no part of signing yet. -/
  eq_error : ∀ e, SignFailed account limit (xs.drop 3) e → (∀ source, ¬ RelockMissed xs source) →
    result = .error e
  obtainable_iff : ∀ g, Obtainable result g ↔ Signed xs g

theorem isSecurityRelevant_of_signature? {e : Error} {g : Signature} (h : e.signature? = some g) :
    e.isSecurityRelevant = true := by
  cases e with
  | relockFailed account signature source => rfl
  | _ => cases h

theorem toOption_eq_some_iff {result : Except Error Signature} {g : Signature} :
    result.toOption = some g ↔ result = .ok g := by
  cases result <;> simp [Except.toOption]

theorem ComesTo.settles {account : String} {limit : Duration} {xs : List Exchange}
    {outcome : Except Error Signature} {lock : Except CallError Unit}
    (h : ComesTo account limit (xs.drop 3) outcome lock)
    (hs : ∀ g, Signed xs g ↔ Signed (xs.drop 3) g)
    (hr : ∀ source, RelockMissed xs source ↔ RelockMissed (xs.drop 3) source) :
    Settles account limit xs (settled account outcome lock) := by
  have hsigned : ∀ g, Signed xs g ↔ outcome = .ok g := fun g => (hs g).trans (h.signed g)
  have hmissed : ∀ source, RelockMissed xs source ↔ lock = .error source :=
    fun source => (hr source).trans (h.missed source)
  cases lock with
  | ok u =>
    -- No lock was missed, and the result is that of the signer's part.
    have hnone : ∀ source, ¬ RelockMissed xs source := fun source hm =>
      nomatch (hmissed source).1 hm
    refine ⟨fun g => ?_, fun a g source => ?_, fun e hf _ => h.failed e hf, fun g => ?_⟩
    · exact ⟨fun he => ⟨(hsigned g).2 he, hnone⟩, fun hg => (hsigned g).1 hg.1⟩
    · exact ⟨fun he => absurd ⟨_, he, rfl⟩ h.harmless, fun hm => absurd hm.2.1 (hnone source)⟩
    · rw [hsigned g]
      refine or_iff_left ?_
      rintro ⟨e, he, hg⟩
      exact h.harmless ⟨e, he, isSecurityRelevant_of_signature? hg⟩
  | error missed =>
    have hthis : RelockMissed xs missed := (hmissed missed).2 rfl
    refine ⟨fun g => ?_, fun a g source => ?_, fun e _ hn => absurd hthis (hn missed), fun g => ?_⟩
    · exact ⟨nofun, fun hg => absurd hthis (hg.2 missed)⟩
    · have hg : outcome.toOption = g ↔ ∀ g', g = some g' ↔ Signed xs g' := by
        simp only [hsigned, ← toOption_eq_some_iff]
        exact ⟨fun he g' => by rw [he], fun he => (Option.ext he).symm⟩
      simp only [settled, Except.error.injEq, Error.relockFailed.injEq, hg, hmissed]
      constructor
      · rintro ⟨rfl, hg, rfl⟩
        exact ⟨rfl, rfl, hg⟩
      · rintro ⟨rfl, rfl, hg⟩
        exact ⟨rfl, hg, rfl⟩
    · have ho : Obtainable (settled account outcome (.error missed)) g ↔
          outcome.toOption = some g := by
        simp [Obtainable, settled, Error.signature?]
      rw [ho, toOption_eq_some_iff, hsigned g]

theorem RequestTrace.course {account : String} {c : Config} {root : Root} {domain : Domain}
    {xs : List Exchange} {result : Except Error Signature}
    (h : RequestTrace account c root domain xs result) :
    Course account c.timeout (xs.drop 3) result := by
  have hnone : ∀ x ∈ ([] : List Exchange), x.Idle := List.forall_mem_nil Exchange.Idle
  cases h with
  | zeroTimeout h => exact .early hnone rfl
  | incapable h l => exact .early hnone rfl
  | protecting h l g hs => exact hs.course
  | plain h l hs => exact hs.course

theorem RequestTrace.settles {account : String} {c : Config} {root : Root} {domain : Domain}
    {xs : List Exchange} {result : Except Error Signature}
    (h : RequestTrace account c root domain xs result) : Settles account c.timeout xs result := by
  -- The questions at the beginning neither sign nor unlock anything.
  have hs : ∀ g, Signed xs g ↔ Signed (xs.drop 3) g := by
    intro g
    cases h <;> simp [Signed, Exchange.signing?]
  have hr : ∀ source, RelockMissed xs source ↔ RelockMissed (xs.drop 3) source := by
    intro source
    cases h <;> exact Iff.rfl
  obtain ⟨outcome, lock, hres, hc⟩ := h.course.comesTo
  rw [hres]
  exact hc.settles hs hr

/-- Whatever the account answers, a request that is not dropped comes to a result that tells of the
signature, if there is one, and of the lock that was missed, if there is one. -/
theorem signRoot_settles {σ : Type} [Account σ] (account : String) (c : Config) (root : Root)
    (domain : Domain) (s : σ) :
    let r := (signRoot account c root domain).run none s
    ∃ result, r.ending = .finished result ∧ Settles account c.timeout r.exchanges result := by
  obtain ⟨result, he⟩ := run_none_finished (signRoot account c root domain) s
  exact ⟨result, he, (requestTrace_of_finished he).settles⟩

end Process

end Notary
