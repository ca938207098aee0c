import Mathlib.Algebra.Order.BigOperators.Group.List
import Mathlib.Algebra.Order.Ring.Nat
import Notary.Proofs.RequestTrace

/-! How long a request may take. Every call that a process makes is given the same time, however
late it comes, and a process is charged for its calls in advance: of those that it is granted, it
says by what it ends with how many are left for what comes after it. A run that is not dropped takes
the time of its calls and no more. -/

namespace Notary

namespace Wait

/-- Whoever waits is still waiting when the limit has passed. -/
def Exceeds : Wait → Nat → Prop
  | lasting ms, limit => limit < ms
  | endless, _ => True

theorem within_eq_false_iff {w : Wait} {limit : Nat} :
    w.within limit = false ↔ w.Exceeds limit := by
  cases w with
  | lasting ms => simp only [within, Exceeds, decide_eq_false_iff_not, Nat.not_le]
  | endless => simp only [within, Exceeds]

end Wait

theorem Attempt.timedOut_iff {σ β : Type} (a : Attempt σ β) (t after : Duration)
    (operation operation' : Operation) :
    (a.outcome t.milliseconds).toExcept operation t = .error (.timedOut operation' after) ↔
      operation' = operation ∧ after = t ∧ a.wait.Exceeds t.milliseconds := by
  rw [← Wait.within_eq_false_iff]
  unfold outcome
  cases hw : a.wait.within t.milliseconds with
  | false => simp [Outcome.toExcept, eq_comm]
  | true => cases a.result <;> simp [Outcome.ofResult, Outcome.toExcept]

/-- A call that was given the time `t`, and was given up on exactly if it takes longer. -/
structure Call.Boxed (t : Duration) (k : Call) : Prop where
  limit : k.limit = t
  ended : ∃ o, k.outcome = some o ∧ ∀ operation after,
    o.toExcept k.request.operation k.limit = .error (.timedOut operation after) ↔
      operation = k.request.operation ∧ after = t ∧ k.wait.Exceeds t.milliseconds

/-- A run that comes to its end in the time of its calls, and makes no more than `n`. -/
structure Run.OnTime {σ α : Type} (t : Duration) (n : Nat) (r : Run σ α) : Prop where
  finished : ∃ a, r.ending = .finished a
  boxed : ∀ k ∈ r.calls, k.Boxed t
  elapsed : r.elapsed = (r.calls.map fun k => k.wait.capped t.milliseconds).sum
  calls : r.calls.length ≤ n
  total : r.elapsed ≤ n * t.milliseconds

namespace Process
variable {α β : Type}

/-- Granted `n` calls, each with the time `t`, the process comes to an end, and if it ends with
`a`, there are `left a` of them left. It learns of a call what the bounded call returns, and only
that. -/
inductive TimeBoxed (t : Duration) (left : α → Nat) : Nat → Process α → Prop
  | done {n : Nat} {a : α} (h : left a ≤ n) : TimeBoxed t left n (done a)
  | report {n : Nat} {e : Event} {next : Process α} (h : TimeBoxed t left n next) :
      TimeBoxed t left n (report e next)
  | probe {n : Nat} {c : Capability} {next : Bool → Process α}
      (h : ∀ offered, TimeBoxed t left n (next offered)) : TimeBoxed t left n (probe c next)
  | bounded {n : Nat} {r : Request} {session : Option Session}
      {next : Except CallError r.Reply → Process α} (h : ∀ reply, TimeBoxed t left n (next reply)) :
      TimeBoxed t left (n + 1) (bounded r t session >>= next)

namespace TimeBoxed
variable {t : Duration} {left : α → Nat} {n m : Nat} {p : Process α}

theorem mono (h : TimeBoxed t left n p) (hn : n ≤ m) : TimeBoxed t left m p := by
  induction h generalizing m with
  | done h => exact .done (h.trans hn)
  | report h ih => exact .report (ih hn)
  | probe h ih => exact .probe fun offered => ih offered hn
  | bounded h ih =>
    obtain ⟨m, rfl⟩ := Nat.exists_eq_add_of_le' ((Nat.le_add_left 1 _).trans hn)
    exact .bounded fun reply => ih reply (Nat.le_of_succ_le_succ hn)

theorem bind {left' : β → Nat} {f : α → Process β} (h : TimeBoxed t left n p)
    (hf : ∀ a, TimeBoxed t left' (left a) (f a)) : TimeBoxed t left' n (p >>= f) := by
  induction h with
  | done h => exact (hf _).mono h
  | report h ih => exact .report ih
  | probe h ih => exact .probe ih
  | bounded h ih => exact .bounded ih

theorem emitAll_bind {es : List Event} {f : Unit → Process α} (h : TimeBoxed t left n (f ())) :
    TimeBoxed t left n (emitAll es >>= f) := by
  induction es with
  | nil => exact h
  | cons e es ih => exact .report ih

end TimeBoxed

section
variable {σ : Type} [Account σ]

/-- Time passes in calls only, and in none more than it is given. -/
theorem elapsed_run_none (p : Process α) (s : σ) :
    (p.run none s).elapsed =
      ((p.run none s).calls.map fun k => k.wait.capped k.limit.milliseconds).sum := by
  induction p generalizing s with
  | done a => rfl
  | report e next ih => exact (Nat.zero_add _).trans (ih s)
  | probe c next ih => exact (Nat.zero_add _).trans (ih _ _)
  | call r limit session next ih => exact congrArg (_ + ·) (ih _ _)

namespace TimeBoxed
variable {t : Duration} {left : α → Nat} {n : Nat} {p : Process α}

theorem boxed_of_mem_calls (h : TimeBoxed t left n p) (s : σ) :
    ∀ k ∈ (p.run none s).calls, k.Boxed t := by
  induction h generalizing s with
  | done h => exact nofun
  | report h ih => exact ih s
  | probe h ih => exact ih _ _
  | @bounded n r session next h ih =>
    have hb : Call.Boxed t ⟨r, t, _, some ((Account.attempt r s).outcome t.milliseconds)⟩ :=
      ⟨rfl, _, rfl, fun operation after => Attempt.timedOut_iff _ t after _ operation⟩
    exact List.forall_mem_cons.2 ⟨hb, ih _ _⟩

theorem length_calls_le (h : TimeBoxed t left n p) (s : σ) :
    ∃ a, (p.run none s).ending = .finished a ∧ (p.run none s).calls.length + left a ≤ n := by
  induction h generalizing s with
  | @done n a h => exact ⟨a, rfl, (Nat.zero_add _).trans_le h⟩
  | report h ih => exact ih s
  | probe h ih => exact ih _ _
  | @bounded n r session next h ih =>
    have ih := ih (((Account.attempt r s).outcome t.milliseconds).toExcept r.operation t)
      ((Account.attempt r s).state t.milliseconds)
    obtain ⟨a, ha, hn⟩ := ih
    exact ⟨a, ha, (Nat.succ_add _ _).trans_le (Nat.succ_le_succ hn)⟩

theorem onTime (h : TimeBoxed t left n p) (s : σ) : (p.run none s).OnTime t n := by
  have hb : ∀ k ∈ (p.run none s).calls, k.Boxed t := h.boxed_of_mem_calls s
  obtain ⟨a, ha, hn⟩ := h.length_calls_le s
  have hl : (p.run none s).calls.length ≤ n := (Nat.le_add_right _ _).trans hn
  have he : (p.run none s).elapsed =
      ((p.run none s).calls.map fun k => k.wait.capped t.milliseconds).sum := by
    rw [elapsed_run_none]
    exact congrArg List.sum (List.map_congr_left fun k hk => by rw [(hb k hk).limit])
  refine ⟨⟨a, ha⟩, hb, he, hl, ?_⟩
  calc (p.run none s).elapsed
      = ((p.run none s).calls.map fun k => k.wait.capped t.milliseconds).sum := he
    _ ≤ ((p.run none s).calls.map fun k => k.wait.capped t.milliseconds).length •
          t.milliseconds :=
      List.sum_le_card_nsmul _ _ (List.forall_mem_map.2 fun k _ => k.wait.capped_le _)
    _ = (p.run none s).calls.length * t.milliseconds := by rw [List.length_map, Nat.nsmul_eq_mul]
    _ ≤ n * t.milliseconds := Nat.mul_le_mul_right _ hl

end TimeBoxed

end

end Process

/-- What is left of so many calls: nothing, if that failed for which they were kept. -/
def unspent {ε α : Type} (n : Nat) : Except ε α → Nat
  | .ok _ => n
  | .error _ => 0

namespace Session
open Process

variable {t : Duration} {n : Nat}

theorem timeBoxed_relock (account : String) (session : Option Session) :
    TimeBoxed t (fun _ => n) (n + 1) (relock account t session) := by
  refine .probe fun offered => ?_
  cases offered with
  | false => exact .done n.le_succ
  | true =>
    refine .bounded fun reply => ?_
    cases reply with
    | ok u => exact .report (.done n.le_refl)
    | error e => exact .done n.le_refl

theorem timeBoxed_relockReporting (occasion : Occasion) (account : String) :
    TimeBoxed t (fun _ => n) (n + 1) (relockReporting occasion account t) := by
  refine (timeBoxed_relock account none).bind fun result => ?_
  cases result with
  | ok u => exact .done n.le_refl
  | error e => exact .report (.done n.le_refl)

/-- The lock after an unlock that took too long is paid for by what was kept for the signer. -/
theorem timeBoxed_tryPassphrases (account : String) (attempt : Nat) (ps : List Passphrase) :
    TimeBoxed t (unspent (n + 1)) (ps.length + (n + 1)) (tryPassphrases account t attempt ps) := by
  induction ps generalizing attempt with
  | nil => exact .done (Nat.zero_le _)
  | cons p ps ih =>
    rw [List.length_cons, Nat.succ_add]
    refine .bounded fun reply => ?_
    rcases reply with ⟨operation, after⟩ | ⟨operation, source⟩ | u
    · refine (timeBoxed_relockReporting .unlockTimeout account).bind fun u => ?_
      exact .done (Nat.zero_le _)
    · exact .report (ih (attempt + 1))
    · exact .report (.done (Nat.le_add_left (n + 1) ps.length))

theorem timeBoxed_unlock (account : String) (c : Config) :
    TimeBoxed c.timeout (unspent (n + 1)) (c.passphrases.length + (n + 2)) (unlock account c) := by
  refine .probe fun offered => ?_
  cases offered with
  | false => exact .report (.done (by simp only [unspent]; omega))
  | true =>
    refine .bounded fun reply => ?_
    rcases reply with e | (_ | _)
    · exact .done (Nat.zero_le _)
    · exact timeBoxed_tryPassphrases account 0 c.passphrases
    · exact .report (.done (Nat.le_add_left (n + 1) _))

theorem timeBoxed_close (account : String) (s : Session) :
    TimeBoxed s.timeout (fun _ => n) (n + 1) (close account s) := by
  unfold close
  split
  · exact timeBoxed_relock account (some s)
  · exact .done n.le_succ

/-- Whoever goes on from the beginning of a session has the configured time for every call. -/
theorem begin_bind {α : Type} (account : String) (c : Config)
    (f : Except Error Session → Process α) :
    begin account c >>= f = unlock account c >>= fun result =>
      f (result.map fun state => ⟨state, c.timeout⟩) := by
  refine (bind_assoc _ _ f).trans (congrArg (Process.bind _) (funext fun result => ?_))
  cases result with
  | ok state => rfl
  | error e => rfl

end Session

namespace Process
open Session

variable {n : Nat}

theorem timeBoxed_dispatch (account : String) (s : Session) (order : Order) :
    TimeBoxed s.timeout (fun _ => n) (n + 1) (dispatch account s order) := by
  refine .probe fun offered => ?_
  cases offered with
  | false => exact .done n.le_succ
  | true =>
    cases order with
    | ofRoot root domain => exact .report (.bounded fun reply => .done n.le_refl)
    | ofDigest digest => exact .report (.bounded fun reply => .done n.le_refl)

theorem timeBoxed_settle {t : Duration} (account : String) (outcome : Except Error Signature)
    (source : CallError) : TimeBoxed t (fun _ => n) n (settle account outcome source) := by
  cases outcome with
  | ok signature => exact .report (.done n.le_refl)
  | error e => exact .report (.report (.done n.le_refl))

theorem timeBoxed_signInSession (account : String) (c : Config) (order : Order) :
    TimeBoxed c.timeout (fun _ => 0) (c.passphrases.length + 3)
      (signInSession account c order) := by
  unfold signInSession
  rw [begin_bind]
  refine (timeBoxed_unlock account c).bind fun result => ?_
  cases result with
  | error e => exact .done (Nat.le_refl 0)
  | ok state =>
    -- Of the two calls that are left, one is for the signer and one for the lock.
    refine (timeBoxed_dispatch account ⟨state, c.timeout⟩ order).bind fun outcome => ?_
    refine (timeBoxed_close account ⟨state, c.timeout⟩).bind fun lock => ?_
    cases lock with
    | ok u => exact .done (Nat.le_refl 0)
    | error source => exact timeBoxed_settle account outcome source

theorem timeBoxed_signRoot (account : String) (c : Config) (root : Root) (domain : Domain) :
    TimeBoxed c.timeout (fun _ => 0) (c.passphrases.length + 3)
      (signRoot account c root domain) := by
  unfold signRoot
  cases c.validate with
  | error e => exact .done (Nat.zero_le _)
  | ok u =>
    refine .probe fun l => .probe fun p => .probe fun g => ?_
    cases p with
    | true => exact timeBoxed_signInSession account c _
    | false =>
      refine TimeBoxed.emitAll_bind ?_
      cases g with
      | true => exact timeBoxed_signInSession account c _
      | false => exact .done (Nat.zero_le _)

/-- A request always comes back, in the time of its calls, each of which has the whole timeout to
itself. That is never more than a query, the passphrases, a signing call and a lock may take, even
where an unlock that took too long makes for another lock. -/
theorem signRoot_onTime {σ : Type} [Account σ] (account : String) (c : Config) (root : Root)
    (domain : Domain) (s : σ) :
    let r := (signRoot account c root domain).run none s
    (∀ ms, c.timeout.milliseconds ≤ ms ↔ c.timeout.nanoseconds ≤ ms * 1000000) ∧
      TimeBoxed c.timeout (fun _ => 0) (c.passphrases.length + 3)
        (signRoot account c root domain) ∧
      Account.Passes s r.exchanges r.account ∧ r.OnTime c.timeout (c.passphrases.length + 3) := by
  intro r
  have h := timeBoxed_signRoot account c root domain
  exact ⟨fun _ => Duration.milliseconds_le_iff, h, Account.run_passes _ none s, h.onTime s⟩

end Process

namespace Scripted
open Process

/-- Takes a millisecond for everything, and for ever to sign and to be locked. -/
def tardy : Scripted :=
  { willing with
    passphrase := [2]
    behaving := fun
      | .sign | .lock => [⟨.endless, false, none⟩]
      | .isUnlocked | .unlock => [⟨.lasting 1, false, none⟩] }

/-- A timeout of a nanosecond is a limit of a whole millisecond, which nobody exceeds by using it
up; with two passphrases no request takes longer than this one. -/
theorem tardy_onTime :
    let c : Config := ⟨⟨1⟩, [⟨[1]⟩, ⟨[2]⟩]⟩
    let r := (signRoot "a" c ⟨Octets.zero 32⟩ ⟨Octets.zero 32⟩).run none tardy
    r.calls.map Call.wait = [.lasting 1, .lasting 1, .lasting 1, .endless, .endless] ∧
      r.elapsed = (c.passphrases.length + 3) * c.timeout.milliseconds ∧
      ∀ k ∈ r.calls, k.wait = .endless → ∃ o, k.outcome = some o ∧
        o.toExcept k.request.operation k.limit = .error (.timedOut k.request.operation ⟨1⟩) := by
  intro c r
  have hw : r.calls.map Call.wait =
      [.lasting 1, .lasting 1, .lasting 1, .endless, .endless] := by decide +kernel
  obtain ⟨-, -, -, h⟩ := signRoot_onTime "a" c ⟨Octets.zero 32⟩ ⟨Octets.zero 32⟩ tardy
  refine ⟨hw, ?_, fun k hk he => ?_⟩
  · have hs := congrArg (fun ws => (ws.map fun w => w.capped c.timeout.milliseconds).sum) hw
    rw [List.map_map] at hs
    exact h.elapsed.trans (hs.trans (by decide +kernel))
  · obtain ⟨o, ho, hi⟩ := (h.boxed k hk).ended
    exact ⟨o, ho, (hi _ _).2 ⟨rfl, rfl, he ▸ trivial⟩⟩

end Scripted

end Notary
