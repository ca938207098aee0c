import Notary.Proofs.LockTrace

/-! A dropped request beside the same request left alone. Up to the drop the two do not differ, but
for the call that the drop has cut short. After it, the account is locked once if the request had
seen an unlock succeed, and is left alone otherwise; a request that had come to its end by then
leaves nothing to be done. -/

namespace Notary

namespace Process
open Account
variable {σ α : Type} [Account σ]

/-- Up to the drop a run is the one that is not dropped; there it waits for a call that the other
sees come to an end. -/
theorem run_dropped {p : Process α} {t : Nat} {s : σ} {session : Option Session}
    (h : (p.run (some t) s).ending = .dropped session) :
    ∃ xs zs r limit w o s₁,
      (p.run (some t) s).exchanges = xs ++ [.pending r limit w] ∧
      (p.run none s).exchanges = xs ++ .ended r limit w o :: zs ∧
      Passes s xs s₁ ∧ (p.run (some t) s).account = (Account.attempt r s₁).during := by
  induction p generalizing t s with
  | done a => cases h
  | report e next ih => exact ih h
  | probe c next ih =>
    obtain ⟨xs, zs, r, limit, w, o, s₁, hr, hu, hp, ha⟩ := ih _ h
    exact ⟨_ :: xs, zs, r, limit, w, o, s₁, congrArg (_ :: ·) hr, congrArg (_ :: ·) hu,
      ⟨rfl, hp⟩, ha⟩
  | call r limit session next ih =>
    have hu : ((call r limit session next).run none s).exchanges =
        .ended r limit (Account.attempt r s).wait
          ((Account.attempt r s).outcome limit.milliseconds) ::
        ((next ((Account.attempt r s).outcome limit.milliseconds)).run none
          ((Account.attempt r s).state limit.milliseconds)).exchanges := rfl
    rw [hu]
    rw [run] at h ⊢
    split
    · exact ⟨[], _, r, limit, _, _, s, rfl, rfl, rfl, rfl⟩
    · rename_i hf
      rw [hf] at h
      obtain ⟨xs, zs, r', limit', w, o, s₁, hr, hu, hp, ha⟩ := ih _ h
      exact ⟨_ :: xs, zs, r', limit', w, o, s₁, congrArg (_ :: ·) hr, congrArg (_ :: ·) hu,
        ⟨⟨rfl, rfl⟩, hp⟩, ha⟩

/-- What a dropped run has reported is what the other reports first. -/
theorem events_run_isPrefix (p : Process α) (t : Nat) (s : σ) :
    (p.run (some t) s).events <+: (p.run none s).events := by
  induction p generalizing t s with
  | done a => exact List.prefix_refl _
  | report e next ih => exact (List.prefix_append_right_inj [e]).2 (ih t s)
  | probe c next ih => exact ih _ t _
  | call r limit session next ih =>
    unfold run
    dsimp only
    have hearly : (Account.attempt r s).early <+:
        (Account.attempt r s).events limit.milliseconds := by
      unfold Attempt.events
      split
      · exact List.prefix_append _ _
      · exact List.prefix_refl _
    split
    · exact hearly.trans (List.prefix_append _ _)
    · exact (List.prefix_append_right_inj _).2 (ih _ _ _)

/-- A run that comes to its end in time is the one that is not dropped. -/
theorem run_finished {p : Process α} {t : Nat} {s : σ} {a : α}
    (h : (p.run (some t) s).ending = .finished a) : p.run (some t) s = p.run none s := by
  induction p generalizing t s with
  | done a => rfl
  | report e next ih => exact congrArg (Run.after · 0 [e] []) (ih h)
  | probe c next ih => exact congrArg (Run.after · 0 [] [_]) (ih _ h)
  | call r limit session next ih =>
    unfold run at h ⊢
    dsimp only at h ⊢
    split
    · rename_i hf
      rw [hf] at h
      cases h
    · rename_i hf
      rw [hf] at h
      exact congrArg (Run.after · _ _ [_]) (ih _ h)

end Process

/-- What is still to be done when a run is over: the lock of a session that was dropped. -/
def Run.aftermath {σ α : Type} (account : String) (r : Run σ α) : Process Unit :=
  match r.ending with
  | .finished _ => return ()
  | .dropped session => Session.abandon account session

theorem takeEntry_of_forall_eq {α : Type} (fallback : α) {xs : List α} {a : α}
    (h : ∀ b ∈ xs, b = a) :
    (∀ b ∈ (takeEntry fallback xs).2, b = a) ∧
      (takeEntry fallback (takeEntry fallback xs).2).1 = (takeEntry fallback xs).1 := by
  match xs with
  | [] => exact ⟨h, rfl⟩
  | [b] => exact ⟨h, rfl⟩
  | b :: b' :: rest =>
    have hr : ∀ d ∈ b' :: rest, d = a := fun d hd => h d (.tail b hd)
    have hm := (takeEntry_of_ne_nil fallback (List.cons_ne_nil b' rest)).1
    exact ⟨hr, (hr _ hm).trans (h b List.mem_cons_self).symm⟩

namespace Scripted
open Account Process Session

/-- The account never changes its mind about what it offers. -/
def Steady (s : Scripted) : Prop :=
  ∀ c, ∃ offered, ∀ b ∈ s.offering c, b = offered

theorem Steady.next {s : Scripted} (h : s.Steady) (x : Exchange) :
    (x.next s).Steady ∧ ∀ c, (Account.offers c (x.next s)).1 = (Account.offers c s).1 := by
  cases x with
  | answer c offered =>
    obtain ⟨b, hb⟩ := h c
    obtain ⟨hrest, hnext⟩ := takeEntry_of_forall_eq false hb
    have ho : ∀ c', (Exchange.next s (.answer c offered)).offering c' =
        if c' = c then (takeEntry false (s.offering c)).2 else s.offering c' := fun _ => rfl
    refine ⟨fun c' => ?_, fun c' => ?_⟩
    · rw [ho]
      split
      · exact ⟨b, hrest⟩
      · exact h c'
    · change (takeEntry false ((Exchange.next s (.answer c offered)).offering c')).1 =
        (takeEntry false (s.offering c')).1
      rw [ho]
      split
      · rename_i hc
        rw [hc]
        exact hnext
      · rfl
  | call k =>
    have ho : ((Exchange.call k).next s).offering = s.offering := by
      rcases next_call s k with hk | hk
      · rw [hk]
        rfl
      · rw [hk, offering_work]
        rfl
    refine ⟨fun c => ?_, fun c => ?_⟩
    · rw [ho]
      exact h c
    · change (takeEntry false (((Exchange.call k).next s).offering c)).1 =
        (takeEntry false (s.offering c)).1
      rw [ho]

theorem Steady.passes {s s' : Scripted} {xs : List Exchange} (h : s.Steady)
    (hp : Passes s xs s') (c : Capability) :
    (Account.offers c s').1 = (Account.offers c s).1 ∧
      ∀ offered, .answer c offered ∈ xs → offered = (Account.offers c s).1 := by
  induction xs generalizing s with
  | nil =>
    cases hp
    exact ⟨rfl, nofun⟩
  | cons x xs ih =>
    obtain ⟨hn, ho⟩ := h.next x
    obtain ⟨hlast, hall⟩ := ih hn hp.2
    refine ⟨hlast.trans (ho c), fun offered hm => ?_⟩
    rcases List.mem_cons.1 hm with rfl | hm
    · exact hp.1.symm
    · exact (hall offered hm).trans (ho c)

/-- A call that is dropped while it waits has had no effect yet, or all of it. -/
theorem during_eq (r : Request) (limit : Duration) (w : Wait) (o : Outcome r.Reply)
    (s : Scripted) :
    (Account.attempt r s).during = s.taken r.operation ∨
      (Account.attempt r s).during = (Exchange.ended r limit w o).next s := by
  change _ ∨ _ = (Account.attempt r s).state limit.milliseconds
  rw [Attempt.state, during_attempt]
  split
  · rename_i hw
    -- What works before it waits does nothing more at the end of its wait.
    have hf : (s.due r.operation).failure.isNone = true := (Bool.and_eq_true_iff.1 hw).1
    rw [attempt_eq, Behaviour.after_attempt, if_pos hf, ite_self]
    exact Or.inr rfl
  · exact Or.inl rfl

/-- One run breaks off in a call that the other sees come to an end. Up to there they do not
differ, and the call has had no effect yet, or the one that it has in the other run. -/
def CutShort {α : Type} (s : Scripted) (r u : Run Scripted α) : Prop :=
  ∃ xs zs q limit w o s₁,
    r.exchanges = xs ++ [.pending q limit w] ∧ u.exchanges = xs ++ .ended q limit w o :: zs ∧
      Passes s xs s₁ ∧
      (r.account = s₁.taken q.operation ∨ r.account = (Exchange.ended q limit w o).next s₁)

theorem CutShort.requests_isPrefix {α : Type} {s : Scripted} {r u : Run Scripted α}
    (h : CutShort s r u) : r.requests <+: u.requests := by
  obtain ⟨xs, zs, q, limit, w, o, s₁, hr, hu, -⟩ := h
  unfold Run.requests Run.calls
  rw [hr, hu]
  exact ⟨(zs.filterMap Exchange.call?).map Call.request, by
    simp [Exchange.call?, Exchange.pending, Exchange.ended]⟩

theorem run_cutShort {α : Type} {p : Process α} {t : Nat} {s : Scripted}
    {session : Option Session} (h : (p.run (some t) s).ending = .dropped session) :
    CutShort s (p.run (some t) s) (p.run none s) := by
  obtain ⟨xs, zs, q, limit, w, o, s₁, hr, hu, hp, ha⟩ := run_dropped h
  exact ⟨xs, zs, q, limit, w, o, s₁, hr, hu, hp, ha ▸ during_eq q limit w o s₁⟩

/-- What a request has done when it is dropped, and what is done after that. -/
structure DropsGuarded (s : Scripted) (limit : Duration)
    (r u : Run Scripted (Except Error Signature)) (after : Run Scripted Unit) : Prop where
  cut : CutShort s r u
  requests : r.requests <+: u.requests
  events : r.events <+: u.events
  /-- The lock has the whole time again that a call may take, also where it was a lock that was
  dropped; and it is the only call. -/
  relocked : (∃ x ∈ r.exchanges, x.unlocks = true) →
    ∃ w o, after.calls = [⟨.lock, limit, w, some o⟩]
  untouched : (∀ x ∈ r.exchanges, x.unlocks = false) → after.calls = []
  spared : (Account.offers .locker s).1 = false ∨
      (∃ x ∈ r.exchanges, x.reportsUnlocked = true) →
    after.calls = [] ∧ r.account.unlocked = s.unlocked ∧ after.account.unlocked = s.unlocked

theorem dropsGuarded {s : Scripted} (hs : s.Steady) {account : String} {c : Config} {root : Root}
    {domain : Domain} {t : Nat} {session : Option Session}
    (h : ((signRoot account c root domain).run (some t) s).ending = .dropped session) :
    let r := (signRoot account c root domain).run (some t) s
    DropsGuarded s c.timeout r ((signRoot account c root domain).run none s)
      ((abandon account session).run none r.account) := by
  intro r
  have hp : Passes s r.exchanges r.account :=
    run_passes (signRoot account c root domain) (some t) s
  have hx : OfRoot account c root domain r.exchanges (.dropped session) :=
    h ▸ leads_signRoot (run_leads (signRoot account c root domain) (some t) s)
  have hcut : CutShort s r _ := run_cutShort h
  have hevents := events_run_isPrefix (signRoot account c root domain) t s
  obtain ⟨hlast, hall⟩ := hs.passes hp .locker
  have nothing : (∀ x ∈ r.exchanges, x.unlocks = false) → abandon account session = pure () := by
    intro hn
    apply abandon_eq_of_unowed
    refine Option.eq_none_iff_forall_ne_some.2 fun q hq => ?_
    exact Exchange.not_exists_unlocks hn ((hx.owes_iff q).1 hq).1
  refine ⟨hcut, hcut.requests_isPrefix, hevents, fun hu => ?_, fun hn => ?_, fun hl => ?_⟩
  · have hq := (hx.owes_iff _).2 ⟨hu, rfl⟩
    have hoffered := hall true (hx.locker_of_unlocks hu)
    exact abandon_of_owed hq (hlast.trans hoffered.symm)
  · rw [nothing hn]
    rfl
  · have withdrawn : (Account.offers .locker s).1 = false → .answer .locker true ∉ r.exchanges :=
      fun hf hm => Bool.false_ne_true (hf.symm.trans (hall true hm).symm)
    have spares : ∀ x ∈ r.exchanges, x.SparesLock := hx.sparesLock (hl.imp_left withdrawn)
    have hlock : r.account.unlocked = s.unlocked :=
      unlocked_passes hp fun k hk => spares _ hk k rfl
    rw [nothing fun x hm => (spares x hm).not_unlocks]
    exact ⟨rfl, hlock, hlock⟩

/-- Whenever a request is dropped, it has done what it would have done by then. The account is
locked once more if it was seen to be unlocked, and not touched otherwise. A request that comes to
its end in time is the one that is not dropped, and leaves nothing to be done. -/
theorem signRoot_dropsGuarded {s : Scripted} (hs : s.Steady) (account : String) (c : Config)
    (root : Root) (domain : Domain) (t : Nat) :
    let r := (signRoot account c root domain).run (some t) s
    let u := (signRoot account c root domain).run none s
    let after := (r.aftermath account).run none r.account
    (∀ session, r.ending = .dropped session → DropsGuarded s c.timeout r u after) ∧
      ∀ result, r.ending = .finished result → r = u ∧ after.calls = [] := by
  intro r u after
  refine ⟨fun session he => ?_, fun result he => ?_⟩
  · have ha : r.aftermath account = abandon account session := by
      unfold Run.aftermath
      rw [he]
    have hd : DropsGuarded s c.timeout r u ((abandon account session).run none r.account) :=
      dropsGuarded hs he
    rw [← ha] at hd
    exact hd
  · have ha : r.aftermath account = pure () := by
      unfold Run.aftermath
      rw [he]
    refine ⟨run_finished he, ?_⟩
    change ((r.aftermath account).run none r.account).calls = []
    rw [ha]
    rfl

/-- Takes its time to be locked. -/
def unhurried : Scripted :=
  { willing with
    behaving := fun
      | .lock => [⟨.lasting 800, false, none⟩]
      | _ => [] }

/-- Dropped while it locks the account, the request has the account locked all the same. -/
theorem unhurried_relocked :
    let c : Config := ⟨.ofSeconds 1, [⟨[]⟩]⟩
    let r := (signRoot "a" c ⟨Octets.zero 32⟩ ⟨Octets.zero 32⟩).run (some 500) unhurried
    let after := (r.aftermath "a").run none r.account
    unhurried.Steady ∧ r.ending = .dropped (some ⟨.justUnlocked, c.timeout⟩) ∧
      r.account.unlocked = true ∧ (∃ w o, after.calls = [⟨.lock, c.timeout, w, some o⟩]) ∧
      after.account.unlocked = false := by
  have hs : unhurried.Steady := fun _ => ⟨true, fun _ => List.eq_of_mem_singleton⟩
  have hd := (signRoot_dropsGuarded hs "a" ⟨.ofSeconds 1, [⟨[]⟩]⟩ ⟨Octets.zero 32⟩
    ⟨Octets.zero 32⟩ 500).1 _ rfl
  exact ⟨hs, rfl, rfl, hd.relocked ⟨_, List.mem_of_getElem? (i := 5) rfl, rfl⟩, rfl⟩

end Scripted

end Notary
