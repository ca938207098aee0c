import Notary.Proofs.DropGuard
import Notary.Proofs.Journal
import Notary.Proofs.TimeBox

/-! What can be read of locks in the log. For each lock that comes to its end there is one event,
which tells how it went and where it was owed, and no other event tells of locks. Besides these,
nothing is reported above the level of debugging but an interruption that hands a lock off and the
signer's failure where the failure of a lock takes its place. -/

namespace Notary

namespace Event

def ofRelock : Event → Bool
  | relocked _ | relockFailed _ _ _ => true
  | _ => false

/-- How a lock went. -/
def ofLock (account : String) (occasion : Occasion) : Except CallError Unit → Event
  | .ok () => relocked account
  | .error source => relockFailed occasion account source

theorem ofRelock_ofLock (account : String) (occasion : Occasion) (lock : Except CallError Unit) :
    (ofLock account occasion lock).ofRelock = true := by
  cases lock <;> rfl

end Event

/-- An unlock that was given up on. -/
def Exchange.givesUp : Exchange → Bool
  | call ⟨.unlock _, _, _, some .expired⟩ => true
  | _ => false

/-- Where the locks of a request are owed: one that gave up on an unlock comes to no session. -/
def Process.occasion (xs : List Exchange) : Occasion :=
  if xs.any Exchange.givesUp then .unlockTimeout else .close

theorem Process.occasion_eq_close {xs : List Exchange} (h : ∀ x ∈ xs, x.givesUp = false) :
    occasion xs = .close := by
  have hn : ¬ xs.any Exchange.givesUp = true := by
    simpa using h
  rw [occasion, if_neg hn]

namespace Journal

/-- How the locks went that came to their end. -/
def locks (js : List Entry) : List (Except CallError Unit) :=
  (exchanges js).filterMap Exchange.locking?

/-- The events that tell of locks. -/
def relocks (js : List Entry) : List Event := (own js).filter Event.ofRelock

/-- All that is more than debugging, except what tells of locks. -/
def mishaps (js : List Entry) : List Event :=
  (own js).filter fun e => !e.ofRelock && e.level != .debug

/-- Every lock is told of in its place, and nothing else is out of order. -/
structure Audited (account : String) (occasion : Occasion) (js : List Entry) : Prop where
  relocked : relocks js = (locks js).map (Event.ofLock account occasion)
  quiet : mishaps js = []

variable {account : String} {occasion : Occasion} {js ks : List Entry}

theorem locks_append : locks (js ++ ks) = locks js ++ locks ks := by
  simp [locks, List.filterMap_append]

theorem relocks_append : relocks (js ++ ks) = relocks js ++ relocks ks := by
  simp [relocks, List.filter_append]

theorem mishaps_append : mishaps (js ++ ks) = mishaps js ++ mishaps ks := by
  simp [mishaps, List.filter_append]

namespace Audited

theorem nil : Audited account occasion [] := ⟨rfl, rfl⟩

theorem append (hj : Audited account occasion js) (hk : Audited account occasion ks) :
    Audited account occasion (js ++ ks) := by
  refine ⟨?_, ?_⟩
  · rw [relocks_append, locks_append, List.map_append, hj.relocked, hk.relocked]
  · rw [mishaps_append, hj.quiet, hk.quiet, List.append_nil]

theorem event {e : Event} (he : e.ofRelock = false) (hl : e.level = .debug) :
    Audited account occasion [.event e] := by
  refine ⟨?_, ?_⟩
  · simp [relocks, locks, own, exchanges, Entry.own?, Entry.exchange?, he]
  · simp [mishaps, own, Entry.own?, hl]

theorem exchange {x : Exchange} (hx : x.locking? = none) (told : List Event) :
    Audited account occasion [.exchange x told] := by
  refine ⟨?_, rfl⟩
  simp [relocks, locks, own, exchanges, Entry.own?, Entry.exchange?, hx]

/-- A lock and the event that tells of it. -/
theorem lock (t : Duration) (w : Wait) (o : Outcome Unit) (told : List Event) :
    Audited account occasion [.exchange (.ended .lock t w o) told,
      .event (Event.ofLock account occasion (o.toExcept .lock t))] := by
  have ho := Event.ofRelock_ofLock account occasion (o.toExcept .lock t)
  refine ⟨?_, ?_⟩
  · change [Event.ofLock account occasion (o.toExcept .lock t)].filter Event.ofRelock = _
    rw [List.filter_cons_of_pos ho]
    rfl
  · simp [mishaps, own, Entry.own?, ho]

end Audited

/-- Nothing of a lock is in it, nor anything out of order. -/
structure Clean (account : String) (js : List Entry) : Prop where
  audited : ∀ occasion, Audited account occasion js
  kept : ∀ x ∈ exchanges js, x.givesUp = false

namespace Clean

theorem nil : Clean account [] := ⟨fun _ => .nil, List.forall_mem_nil _⟩

theorem append (hj : Clean account js) (hk : Clean account ks) : Clean account (js ++ ks) := by
  refine ⟨fun occasion => (hj.audited occasion).append (hk.audited occasion), ?_⟩
  rw [exchanges_append]
  exact List.forall_mem_append.2 ⟨hj.kept, hk.kept⟩

theorem event {e : Event} (he : e.ofRelock = false) (hl : e.level = .debug) :
    Clean account [.event e] := ⟨fun _ => .event he hl, List.forall_mem_nil _⟩

theorem exchange {x : Exchange} (hx : x.locking? = none) (hg : x.givesUp = false)
    (told : List Event) : Clean account [.exchange x told] :=
  ⟨fun _ => .exchange hx told, List.forall_mem_singleton.2 hg⟩

theorem occasion_append (h : Clean account js) :
    Process.occasion (exchanges (js ++ ks)) = Process.occasion (exchanges ks) := by
  have hn : (exchanges js).any Exchange.givesUp = false := List.any_eq_false.2 fun x hx => by
    rw [h.kept x hx]
    exact Bool.false_ne_true
  rw [exchanges_append, Process.occasion, List.any_append, hn, Bool.false_or, Process.occasion]

end Clean

/-- Every lock is told of in the place that the exchanges give it. -/
def Told (account : String) (js : List Entry) : Prop :=
  Audited account (Process.occasion (exchanges js)) js

theorem Clean.told (h : Clean account js) : Told account js := h.audited _

theorem Audited.told (h : Audited account .close js) (hk : ∀ x ∈ exchanges js, x.givesUp = false) :
    Told account js := by
  rw [Told, Process.occasion_eq_close hk]
  exact h

theorem Clean.append_told (hj : Clean account js) (hk : Told account ks) :
    Told account (js ++ ks) := by
  rw [Told, hj.occasion_append]
  exact (hj.audited _).append hk

end Journal

open Journal

namespace Session
variable {account : String} {t : Duration}

/-- The event that is left to be reported when a lock has come to its end. -/
def unreported (account : String) (occasion : Occasion) :
    Ending (Except CallError Unit) → List Entry
  | .finished (.error source) => [.event (.relockFailed occasion account source)]
  | _ => []

/-- A lock that succeeds is reported at once; its failure is left to whom it is due. -/
theorem audited_relock (session : Option Session) (occasion : Occasion) :
    (relock account t session).Always fun js ending =>
      Audited account occasion (js ++ unreported account occasion ending) ∧
        ∀ x ∈ exchanges js, x.givesUp = false := by
  refine .offers fun offered => ?_
  have hoffered : Audited account occasion [.exchange (.answer .locker offered) []] :=
    .exchange rfl []
  cases offered with
  | false => exact ⟨hoffered, List.forall_mem_singleton.2 rfl⟩
  | true =>
    have kept : ∀ w o, ∀ x ∈ [.answer .locker true, .call ⟨.lock, t, w, o⟩],
        Exchange.givesUp x = false := fun w o =>
      List.forall_mem_cons.2 ⟨rfl, List.forall_mem_singleton.2 rfl⟩
    refine .bounded (fun w told => ?_) fun w o told => ?_
    · exact ⟨hoffered.append (.exchange rfl told), kept w none⟩
    · have hlock := hoffered.append (.lock t w o told)
      cases o with
      | returned u => exact ⟨hlock, kept w (some (.returned u))⟩
      | refused e => exact ⟨hlock, kept w (some (.refused e))⟩
      | expired => exact ⟨hlock, kept w (some .expired)⟩

theorem audited_relockReporting (occasion : Occasion) :
    (relockReporting occasion account t).Always fun js _ => Audited account occasion js := by
  refine .bind ((audited_relock none occasion).mono fun js ending h => ?_)
  cases ending with
  | dropped session => simpa only [unreported, List.append_nil] using h.1
  | finished lock =>
    cases lock with
    | ok u => exact h.1
    | error source => exact h.1

/-- Until there is a session, no lock is done but where an unlock was given up on. -/
def Opening {α : Type} (account : String) (js : List Entry) : Ending (Except Error α) → Prop
  | .finished (.ok _) => Clean account js
  | .finished (.error e) => Told account js ∧ e.isSecurityRelevant = false
  | .dropped _ => Told account js

theorem Opening.after {α : Type} {js ks : List Entry} {ending : Ending (Except Error α)}
    (hj : Clean account js) (h : Opening account ks ending) : Opening account (js ++ ks) ending := by
  cases ending with
  | dropped session => exact hj.append_told h
  | finished result =>
    cases result with
    | ok a => exact hj.append h
    | error e => exact ⟨hj.append_told h.1, h.2⟩

theorem opening_tryPassphrases (attempt : Nat) (ps : List Passphrase) :
    (tryPassphrases account t attempt ps).Always (Opening account) := by
  induction ps generalizing attempt with
  | nil => exact ⟨Clean.nil.told, rfl⟩
  | cons p ps ih =>
    refine .bounded (fun w told => (Clean.exchange rfl rfl told).told) fun w o told => ?_
    cases o with
    | returned u => exact (Clean.exchange rfl rfl told).append (.event rfl rfl)
    | refused e =>
      have hrefused : Clean account [.exchange (.ended (.unlock p.bytes) t w (.refused e)) told,
          .event (.passphraseRejected account attempt e)] :=
        (Clean.exchange rfl rfl told).append (.event rfl rfl)
      exact (ih (attempt + 1)).mono fun js ending h => h.after hrefused
    | expired =>
      have hexpired : ∀ js, Audited account .unlockTimeout js →
          Told account (.exchange (.ended (.unlock p.bytes) t w .expired) told :: js) :=
        fun js h => (Audited.exchange rfl told).append h
      refine .bind ((audited_relockReporting .unlockTimeout).mono fun js ending h => ?_)
      cases ending with
      | dropped session => exact hexpired js h
      | finished u => exact ⟨hexpired _ (h.append .nil), rfl⟩

theorem opening_unlock (c : Config) : (unlock account c).Always (Opening account) := by
  refine .offers fun offered => ?_
  have hoffered : Clean account [.exchange (.answer .locker offered) []] := .exchange rfl rfl []
  cases offered with
  | false => exact hoffered.append (.event rfl rfl)
  | true =>
    refine .bounded (fun w told => ?_) fun w o told => ?_
    · exact (hoffered.append (.exchange rfl rfl told)).told
    · have hqueried : Clean account [.exchange (.answer .locker true) [],
          .exchange (.ended .isUnlocked c.timeout w o) told] :=
        hoffered.append (.exchange rfl rfl told)
      cases o with
      | returned b =>
        cases b with
        | true => exact hqueried.append (.event rfl rfl)
        | false => exact (opening_tryPassphrases 0 c.passphrases).mono fun js ending h =>
            h.after hqueried
      | refused e => exact ⟨hqueried.told, rfl⟩
      | expired => exact ⟨hqueried.told, rfl⟩

end Session

namespace Process
variable {account : String} {limit : Duration} {js ks : List Entry}

theorem clean_signing {o : Option (Outcome Signature)} (w : Wait) (order : Order)
    (told : List Event) : Clean account [.exchange (order.exchange limit w o) told] := by
  cases order with
  | ofRoot root domain => exact .exchange rfl rfl told
  | ofDigest digest => exact .exchange rfl rfl told

theorem always_orderCall {P : List Entry → Ending (Except CallError Signature) → Prop} {s : Session}
    {order : Order}
    (hp : ∀ w told, P [.exchange (order.exchange s.timeout w none) told] (.dropped (some s)))
    (h : ∀ w o told, P [.exchange (order.exchange s.timeout w (some o)) told]
      (.finished (o.toExcept .sign s.timeout))) : (order.call s).Always P := by
  cases order with
  | ofRoot root domain => exact ⟨hp, h⟩
  | ofDigest digest => exact ⟨hp, h⟩

/-- The signer's part has nothing to do with locks. -/
theorem clean_dispatch (account : String) (s : Session) (order : Order) :
    (dispatch account s order).Always fun js ending =>
      Clean account js ∧ Signing account s order (exchanges js) ending := by
  refine .offers fun offered => ?_
  have hoffered : Clean account [.exchange (.answer order.capability offered) []] :=
    .exchange rfl rfl []
  cases offered with
  | false => exact ⟨hoffered, .withdrawn⟩
  | true =>
    have hevent : Clean account [.event (order.event account)] := by
      cases order with
      | ofRoot root domain => exact .event rfl rfl
      | ofDigest digest => exact .event rfl rfl
    have hbegun := hoffered.append hevent
    refine .emit (.bind (always_orderCall (fun w told => ?_) fun w o told => ?_))
    · exact ⟨hbegun.append (clean_signing w order told), .pending w⟩
    · exact ⟨hbegun.append (clean_signing w order told), .ended w o⟩

/-- The signer's failure is reported where the failure of a lock is returned in its place. -/
inductive Displacing (account : String) (limit : Duration) (xs : List Exchange) :
    List Event → Ending (Except Error Signature) → Prop
  | none {ending : Ending (Except Error Signature)}
      (he : ∀ source, ending ≠ .finished (.error (.relockFailed account none source))) :
      Displacing account limit xs [] ending
  | signer {e : Error} {source : CallError} (hf : SignFailed account limit xs e) :
      Displacing account limit xs [.signingFailed account e]
        (.finished (.error (.relockFailed account none source)))

theorem Displacing.mono {xs ys : List Exchange} {es : List Event}
    {ending : Ending (Except Error Signature)} (h : Displacing account limit xs es ending)
    (hxs : xs ⊆ ys) : Displacing account limit ys es ending := by
  cases h with
  | none he => exact .none he
  | signer hf =>
    obtain ⟨x, hx, hf⟩ := hf
    exact .signer ⟨x, hxs hx, hf⟩

/-- What the log of a request says of locks, and what it says else that is more than debugging. -/
structure Logged (account : String) (limit : Duration) (xs : List Exchange) (js : List Entry)
    (ending : Ending (Except Error Signature)) : Prop where
  relocked : relocks js = (locks js).map (Event.ofLock account (occasion (exchanges js)))
  displacing : Displacing account limit xs (mishaps js) ending

variable {xs ys : List Exchange} {ending : Ending (Except Error Signature)}

theorem Logged.of_told (h : Told account js)
    (he : ∀ source, ending ≠ .finished (.error (.relockFailed account none source))) :
    Logged account limit xs js ending := by
  refine ⟨h.relocked, ?_⟩
  rw [h.quiet]
  exact .none he

theorem Logged.after (h : Logged account limit xs js ending) (hk : Clean account ks)
    (hxs : xs ⊆ ys) : Logged account limit ys (ks ++ js) ending := by
  refine ⟨?_, ?_⟩
  · rw [hk.occasion_append, relocks_append, locks_append, List.map_append, h.relocked,
      (hk.audited _).relocked]
  · rw [mishaps_append, (hk.audited .close).quiet, List.nil_append]
    exact h.displacing.mono hxs

/-- The signer's failure is reported last, and tells of no lock. -/
theorem Logged.of_displaced {e : Error} {source : CallError} (h : Told account js)
    (hf : SignFailed account limit (exchanges js) e) :
    let ks := js ++ [.event (.signingFailed account e)]
    Logged account limit (exchanges ks) ks
      (.finished (.error (.relockFailed account none source))) := by
  intro ks
  have hrelocks : relocks ks = relocks js :=
    relocks_append.trans (List.append_nil _)
  have hlocks : locks ks = locks js := locks_append.trans (List.append_nil _)
  have hx : exchanges ks = exchanges js := (exchanges_append _ _).trans (List.append_nil _)
  have hm : mishaps ks = [.signingFailed account e] := by
    rw [mishaps_append, h.quiet]
    rfl
  rw [hx]
  refine ⟨?_, ?_⟩
  · rw [hrelocks, hlocks, hx]
    exact h.relocked
  · rw [hm]
    exact .signer hf

/-- A lock that has failed is reported, and after it the signer's failure, if there is one. -/
theorem logged_settle (outcome : Except Error Signature) (source : CallError)
    (hj : Audited account .close (js ++ [.event (.relockFailed .close account source)]))
    (hk : ∀ x ∈ exchanges js, x.givesUp = false)
    (hf : ∀ e, outcome = .error e → SignFailed account limit (exchanges js) e) :
    (settle account outcome source).Always fun ks =>
      Logged account limit (exchanges (js ++ ks)) (js ++ ks) := by
  have hx : exchanges (js ++ [.event (.relockFailed .close account source)]) = exchanges js :=
    (exchanges_append _ _).trans (List.append_nil _)
  have htold := hj.told (by rwa [hx])
  cases outcome with
  | ok g => exact .of_told htold nofun
  | error e =>
    have h := @Logged.of_displaced account limit _ e source htold (hx ▸ hf e rfl)
    rw [List.append_assoc] at h
    exact h

theorem logged_session (account : String) (s : Session) (order : Order) :
    (dispatch account s order >>= fun outcome => s.close account >>= fun
      | .ok () => pure outcome
      | .error source => settle account outcome source).Always fun js =>
        Logged account s.timeout (exchanges js) js := by
  refine .bind ((clean_dispatch account s order).mono fun js ending h => ?_)
  obtain ⟨hj, hg⟩ := h
  cases ending with
  | dropped session => exact .of_told hj.told nofun
  | finished outcome =>
    have harmless : ∀ source, Ending.finished outcome ≠
        .finished (.error (.relockFailed account none source)) := by
      rintro source ⟨⟩
      exact hg.not_securityRelevant ⟨_, rfl, rfl⟩
    unfold Session.close
    cases s.owesLock with
    | false => exact .of_told (hj.append .nil).told harmless
    | true =>
      refine .bind ((Session.audited_relock (some s) .close).mono fun ks lock hk => ?_)
      obtain ⟨hk, hkept⟩ := hk
      have hboth : ∀ x ∈ exchanges (js ++ ks), x.givesUp = false := by
        rw [exchanges_append]
        exact List.forall_mem_append.2 ⟨hj.kept, hkept⟩
      have haudited := (hj.audited .close).append hk
      rw [← List.append_assoc] at haudited
      have htold : Session.unreported account .close lock = [] → Told account (js ++ ks) := by
        intro hn
        rw [hn, List.append_nil] at haudited
        exact haudited.told hboth
      cases lock with
      | dropped session => exact .of_told (htold rfl) nofun
      | finished lock =>
        cases lock with
        | ok u =>
          have hclosed : Told account (js ++ (ks ++ [])) := by
            rw [List.append_nil]
            exact htold rfl
          exact .of_told hclosed harmless
        | error source =>
          have hfailed : ∀ e, outcome = .error e →
              SignFailed account s.timeout (exchanges (js ++ ks)) e := by
            rintro e rfl
            rw [exchanges_append]
            exact signFailed_append.2 (Or.inl hg.signFailed_of_error)
          have hsettled : (settle account outcome source).Always fun zs =>
              Logged account s.timeout (exchanges (js ++ ks ++ zs)) (js ++ ks ++ zs) :=
            logged_settle outcome source haudited hboth hfailed
          simpa only [List.append_assoc] using hsettled

theorem logged_signInSession (account : String) (c : Config) (order : Order) :
    (signInSession account c order).Always fun js =>
      Logged account c.timeout (exchanges js) js := by
  unfold signInSession
  rw [Session.begin_bind]
  refine .bind ((Session.opening_unlock c).mono fun js ending h => ?_)
  cases ending with
  | dropped session => exact .of_told h nofun
  | finished result =>
    cases result with
    | error e =>
      obtain ⟨h, he⟩ := h
      have htold : Told account (js ++ []) := by rwa [List.append_nil]
      refine .of_told htold ?_
      rintro source ⟨⟩
      exact absurd he nofun
    | ok state =>
      refine (logged_session account ⟨state, c.timeout⟩ order).mono fun ks ending hk => ?_
      exact hk.after h (by simp)

/-- A request begins with three questions that are no part of signing yet. -/
theorem logged_signRoot (account : String) (c : Config) (root : Root) (domain : Domain) :
    (signRoot account c root domain).Always fun js =>
      Logged account c.timeout ((exchanges js).drop 3) js := by
  unfold signRoot
  by_cases ht : c.timeout = ⟨0⟩
  · rw [Config.validate_eq_error_iff.2 ⟨ht, rfl⟩]
    exact .of_told Clean.nil.told nofun
  · rw [Config.validate_eq_ok_iff.2 ht]
    refine .offers fun l => .offers fun p => .offers fun g => ?_
    have hasked : Clean account [.exchange (.answer .locker l) [],
        .exchange (.answer .protectingSigner p) [], .exchange (.answer .signer g) []] :=
      (Clean.exchange rfl rfl []).append ((Clean.exchange rfl rfl []).append (.exchange rfl rfl []))
    cases p with
    | true =>
      refine (logged_signInSession account c (.ofRoot root domain)).mono fun js ending h => ?_
      exact h.after hasked (List.Subset.refl _)
    | false =>
      have hevents : Clean account ((digestEvents root domain).map .event) :=
        (Clean.event rfl rfl).append (.event rfl rfl)
      refine Always.emitAll (f := fun _ => if g = true
        then signInSession account c (.ofDigest (signingDigest root domain))
        else pure (.error (.unsupportedCapability account .signer))) ?_
      cases g with
      | true =>
        refine (logged_signInSession account c _).mono fun js ending h => ?_
        exact h.after (hasked.append hevents) (List.Subset.refl _)
      | false => exact .of_told (hasked.append hevents).told nofun

/-- The signer's failure in whose place the failure of a lock is returned. -/
def Displaced {σ : Type} (account : String) (limit : Duration)
    (r : Run σ (Except Error Signature)) (e : Error) : Prop :=
  SignFailed account limit (r.exchanges.drop 3) e ∧
    ∃ a g source, r.ending = .finished (.error (.relockFailed a g source))

theorem displaced_of_displacing {σ : Type} {r : Run σ (Except Error Signature)} {es : List Event}
    (h : Displacing account limit (r.exchanges.drop 3) es r.ending) :
    es = [] ∨ ∃ e, es = [.signingFailed account e] ∧ Displaced account limit r e := by
  generalize he : r.ending = ending at h
  cases h with
  | none => exact Or.inl rfl
  | signer hf => exact Or.inr ⟨_, rfl, hf, _, _, _, he⟩

/-- There is only one failure of the signer in a request, and that is the one that is reported. -/
theorem eq_signingFailed {c : Config} {root : Root} {domain : Domain} {xs : List Exchange}
    {es : List Event} {result : Except Error Signature} {e : Error}
    (ht : RequestTrace account c root domain xs result)
    (h : Displacing account c.timeout (xs.drop 3) es (.finished result))
    (hf : SignFailed account c.timeout (xs.drop 3) e) (hr : SecurityRelevant result) :
    es = [.signingFailed account e] := by
  obtain ⟨outcome, lock, rfl, hc⟩ := ht.course.comesTo
  have ho := hc.failed e hf
  subst ho
  cases lock with
  | ok u => exact absurd hr hc.harmless
  | error source =>
    generalize he : Ending.finished (settled account (.error e) (.error source)) = ending at h
    cases h with
    | none hn => exact absurd he.symm (hn source)
    | signer hf' => rw [Except.error.inj (hc.failed _ hf')]

end Process

/-- The run is dropped in a session whose lock is handed off. -/
def Run.HandsOff {σ α : Type} (r : Run σ α) : Prop :=
  ∃ session q, r.ending = .dropped session ∧ session.filter Session.owesLock = some q

theorem Session.audited_abandon (account : String) (session : Option Session) :
    (abandon account session).Always fun ks _ =>
      relocks ks = (locks ks).map (Event.ofLock account .interruption) ∧
        (∀ q, session.filter owesLock = some q → mishaps ks = [.interrupted account]) ∧
        (session.filter owesLock = none → ks = []) := by
  cases hq : session.filter owesLock with
  | none =>
    rw [abandon_eq_of_unowed hq]
    exact ⟨rfl, nofun, fun _ => rfl⟩
  | some q =>
    have ha : abandon account session =
        Process.emit (.interrupted account) >>= fun _ => handedOff account q := by
      rw [abandon, hq]
    rw [ha]
    refine .emit ((audited_relockReporting .interruption).mono fun ks ending h => ?_)
    exact ⟨h.relocked, fun _ _ => congrArg (_ :: ·) h.quiet, nofun⟩

theorem Run.audited_aftermath {σ α : Type} (account : String) (r : Run σ α) :
    (r.aftermath account).Always fun ks _ =>
      relocks ks = (locks ks).map (Event.ofLock account .interruption) ∧
        (r.HandsOff → mishaps ks = [.interrupted account]) ∧ (¬ r.HandsOff → ks = []) := by
  unfold aftermath HandsOff
  cases r.ending with
  | finished a => exact ⟨rfl, nofun, fun _ => rfl⟩
  | dropped session =>
    refine (Session.audited_abandon account session).mono fun ks ending h => ?_
    obtain ⟨hrelocks, hoff, hon⟩ := h
    refine ⟨hrelocks, ?_, fun hn => hon (Option.eq_none_iff_forall_ne_some.2 fun q hq => ?_)⟩
    · rintro ⟨session', q, ⟨⟩, hq⟩
      exact hoff q hq
    · exact hn ⟨session, q, rfl, hq⟩

namespace Process

/-- What the logs `js` of a request and `ks` of what is done after it say of locks, of what went
wrong, and of an interruption. -/
structure AuditTrail {σ : Type} (account : String) (limit : Duration)
    (r : Run σ (Except Error Signature)) (late : Run σ Unit) (js ks : List Entry) : Prop where
  exchanged : exchanges (js ++ ks) = r.exchanges ++ late.exchanges
  reported : events (js ++ ks) = r.events ++ late.events
  relocked : relocks js =
    (r.exchanges.filterMap Exchange.locking?).map (Event.ofLock account (occasion r.exchanges))
  relockedLate : relocks ks =
    (late.exchanges.filterMap Exchange.locking?).map (Event.ofLock account .interruption)
  displaced : ∀ e, Displaced account limit r e → mishaps js = [.signingFailed account e]
  undisplaced : (∀ e, ¬ Displaced account limit r e) → mishaps js = []
  interrupted : r.HandsOff → mishaps ks = [.interrupted account]
  uninterrupted : ¬ r.HandsOff → ks = []
  handsOff_iff : r.HandsOff ↔
    (∃ session, r.ending = .dropped session) ∧ ∃ x ∈ r.exchanges, x.unlocks = true

theorem OfRoot.handsOff_iff {σ : Type} {account : String} {c : Config} {root : Root}
    {domain : Domain} {r : Run σ (Except Error Signature)}
    (h : OfRoot account c root domain r.exchanges r.ending) :
    r.HandsOff ↔ (∃ session, r.ending = .dropped session) ∧ ∃ x ∈ r.exchanges, x.unlocks = true := by
  constructor
  · rintro ⟨session, q, he, hq⟩
    rw [he] at h
    exact ⟨⟨session, he⟩, ((h.owes_iff q).1 hq).1⟩
  · rintro ⟨⟨session, he⟩, hx⟩
    rw [he] at h
    exact ⟨session, _, he, (h.owes_iff _).2 ⟨hx, rfl⟩⟩

/-- Whenever a request is dropped, or left to run to its end, the log tells of every lock that came
to its end, in order and by one event each: of its success, or of its failure and where it was owed.
Nothing else in it is a warning but an interruption, where a lock is handed off, and nothing else is
an error but the failure of the signer, where that of a lock takes its place in the result. -/
theorem signRoot_auditTrail {σ : Type} [Account σ] (account : String) (c : Config) (root : Root)
    (domain : Domain) (left : Option Nat) (s : σ) :
    let p := signRoot account c root domain
    let r := p.run left s
    let after := r.aftermath account
    AuditTrail account c.timeout r (after.run none r.account) (p.journal left s)
        (after.journal none r.account) ∧
      (∀ occasion, let told := Event.ofLock account occasion
        ((told (.ok ())).level = .debug ∧ (told (.ok ())).message = "Account relocked") ∧
          ∀ source, (told (.error source)).level = .error ∧
            ("error", source.message) ∈ (told (.error source)).fields) ∧
      (Event.interrupted account).level = .warn ∧
      ∀ e, (Event.signingFailed account e).level = .error := by
  intro p r after
  obtain ⟨hx, he⟩ := journal_tells p left s
  obtain ⟨hx', he'⟩ := journal_tells after none r.account
  have hlogged : Logged account c.timeout ((exchanges (p.journal left s)).drop 3)
      (p.journal left s) r.ending := (logged_signRoot account c root domain).run left s
  obtain ⟨hlate, hoff, hon⟩ := (r.audited_aftermath account).run none r.account
  have hdisplacing := hlogged.displacing
  rw [hx] at hdisplacing
  refine ⟨⟨?_, ?_, ?_, ?_, fun e hd => ?_, fun hn => ?_, hoff, hon, ?_⟩, fun occasion => ?_, rfl,
    fun e => rfl⟩
  · rw [exchanges_append, hx, hx']
  · rw [events_append, he, he']
  · rw [hlogged.relocked, locks, hx]
  · rw [hlate, locks, hx']
  · obtain ⟨hf, a, g, source, hr⟩ := hd
    have hr' : r.ending = .finished (.error (.relockFailed a g source)) := hr
    rw [hr'] at hdisplacing
    exact eq_signingFailed (requestTrace_of_finished hr) hdisplacing hf ⟨_, rfl, rfl⟩
  · rcases displaced_of_displacing hdisplacing with h | ⟨e, -, hd⟩
    · exact h
    · exact absurd hd (hn e)
  · exact (leads_signRoot (run_leads p left s)).handsOff_iff
  · exact ⟨⟨rfl, rfl⟩, fun source => ⟨rfl, .tail _ (.head _)⟩⟩

end Process

namespace Scripted
open Process

/-- Where neither the signer nor the lock comes back in time, both failures are in the log; where
the request is dropped during a lock, there are an interruption and another lock that succeeds. -/
theorem tardy_unhurried_logged :
    let root : Root := ⟨Octets.zero 32⟩
    let domain : Domain := ⟨Octets.zero 32⟩
    let p := signRoot "a" ⟨⟨1⟩, [⟨[2]⟩]⟩ root domain
    let q := signRoot "a" ⟨.ofSeconds 1, [⟨[]⟩]⟩ root domain
    let r := q.run (some 500) unhurried
    let after := r.aftermath "a"
    relocks (p.journal none tardy) = [.relockFailed .close "a" (.timedOut .lock ⟨1⟩)] ∧
      mishaps (p.journal none tardy) = [.signingFailed "a" (.timeout .sign ⟨1⟩)] ∧
      relocks (q.journal (some 500) unhurried) = [] ∧
      mishaps (after.journal none r.account) = [.interrupted "a"] ∧
      relocks (after.journal none r.account) = [.relocked "a"] := by
  intro root domain p q r after
  obtain ⟨hp, -⟩ := signRoot_auditTrail "a" ⟨⟨1⟩, [⟨[2]⟩]⟩ root domain none tardy
  obtain ⟨hq, -⟩ := signRoot_auditTrail "a" ⟨.ofSeconds 1, [⟨[]⟩]⟩ root domain (some 500) unhurried
  have hfailed : SignFailed "a" ⟨1⟩ ((p.run none tardy).exchanges.drop 3) (.timeout .sign ⟨1⟩) :=
    ⟨_, List.mem_of_getElem? (i := 4) rfl, rfl⟩
  refine ⟨hp.relocked, hp.displaced _ ⟨hfailed, _, _, _, rfl⟩, hq.relocked,
    hq.interrupted ⟨_, _, rfl, rfl⟩, hq.relockedLate⟩

end Scripted

end Notary
