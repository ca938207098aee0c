import Notary.Proofs.Exchanges

/-! Processes that differ in nothing but what they unlock with. Told the same, they go on the same;
and an account that shows nothing of a passphrase but how it took it tells them the same, as long
as it takes the one's passphrases as it takes the other's. Their runs cannot then be told apart. -/

namespace Notary

namespace Process
variable {α β : Type}

/-- Whatever they are told, the two do and report the same and come to the same. An unlock may be
given different passphrases. -/
inductive Alike : Process α → Process α → Prop
  | done (a : α) : Alike (done a) (done a)
  | report (e : Event) {p q : Process α} (h : Alike p q) : Alike (report e p) (report e q)
  | probe (c : Capability) {f g : Bool → Process α} (h : ∀ b, Alike (f b) (g b)) :
      Alike (probe c f) (probe c g)
  | call {r : Request} (hr : ∀ p, r ≠ .unlock p) (limit : Duration) (session : Option Session)
      {f g : Outcome r.Reply → Process α} (h : ∀ o, Alike (f o) (g o)) :
      Alike (call r limit session f) (call r limit session g)
  | unlock (p q : List UInt8) (limit : Duration) (session : Option Session)
      {f g : Outcome Unit → Process α} (h : ∀ o, Alike (f o) (g o)) :
      Alike (call (.unlock p) limit session f) (call (.unlock q) limit session g)

namespace Alike

theorem refl (p : Process α) : Alike p p := by
  induction p with
  | done a => exact .done a
  | report e next ih => exact .report e ih
  | probe c next ih => exact .probe c ih
  | call r limit session next ih =>
    cases r with
    | unlock p => exact .unlock p p limit session ih
    | _ => exact .call (by intro p hp; cases hp) limit session ih

theorem bind {p q : Process α} {f g : α → Process β} (h : Alike p q)
    (hf : ∀ a, Alike (f a) (g a)) : Alike (p >>= f) (q >>= g) := by
  change Alike (p.bind f) (q.bind g)
  induction h with
  | done a => exact hf a
  | report e h ih => exact .report e ih
  | probe c h ih => exact .probe c ih
  | call hr limit session h ih => exact .call hr limit session ih
  | unlock p q limit session h ih => exact .unlock p q limit session ih

theorem bounded_unlock (p q : List UInt8) (limit : Duration) (session : Option Session) :
    Alike (α := Except CallError Unit) (bounded (.unlock p) limit session)
      (bounded (.unlock q) limit session) :=
  .unlock p q limit session fun o => .done (o.toExcept .unlock limit)

end Alike

end Process

namespace Exchange

def unlocking? : Exchange → Option (List UInt8)
  | call ⟨.unlock p, _, _, _⟩ => some p
  | _ => none

/-- The exchange without what an unlock was given. -/
def redacted : Exchange → Exchange
  | call ⟨.unlock _, limit, wait, outcome⟩ => call ⟨.unlock [], limit, wait, outcome⟩
  | x => x

end Exchange

/-- The lists agree place by place, as far as both of them go. -/
def Concur {α : Type} (xs ys : List α) : Prop := xs <+: ys ∨ ys <+: xs

theorem concur_cons {α : Type} {x y : α} {xs ys : List α} :
    Concur (x :: xs) (y :: ys) ↔ x = y ∧ Concur xs ys := by
  unfold Concur
  rw [List.cons_prefix_cons, List.cons_prefix_cons, eq_comm (a := y), ← and_or_left]

theorem Concur.of_isPrefix {α : Type} {xs ys zs : List α} (hx : xs <+: zs) (hy : ys <+: zs) :
    Concur xs ys := List.prefix_or_prefix_of_prefix hx hy

/-- Two calls are taken the same but for the states they leave, which are related. -/
structure Attempt.Alike {σ β : Type} (R : σ → σ → Prop) (a b : Attempt σ β) : Prop where
  early : a.early = b.early
  during : R a.during b.during
  wait : a.wait = b.wait
  late : a.late = b.late
  after : R a.after b.after
  result : a.result = b.result

namespace Attempt.Alike
variable {σ β : Type} {R : σ → σ → Prop} {a b : Attempt σ β}

theorem of_eq (h : a = b) : a.Alike Eq b := h ▸ ⟨rfl, rfl, rfl, rfl, rfl, rfl⟩

theorem outcome (h : a.Alike R b) (limit : Nat) : a.outcome limit = b.outcome limit := by
  rw [Attempt.outcome, Attempt.outcome, h.wait, h.result]

theorem state (h : a.Alike R b) (limit : Nat) : R (a.state limit) (b.state limit) := by
  rw [Attempt.state, Attempt.state, h.wait]
  split
  · exact h.after
  · exact h.during

theorem events (h : a.Alike R b) (limit : Nat) : a.events limit = b.events limit := by
  rw [Attempt.events, Attempt.events, h.wait, h.early, h.late]

end Attempt.Alike

namespace Account
variable {σ : Type} [Account σ]

/-- How the account takes each unlock of a log: how long it keeps its caller waiting, and what it
answers. -/
def unlockings : σ → List Exchange → List (Wait × Except AccountError Unit)
  | _, [] => []
  | s, x :: xs =>
    (x.unlocking?.map fun p =>
      ((attempt (.unlock p) s).wait, (attempt (.unlock p) s).result)).toList ++
        unlockings (x.next s) xs

theorem unlockings_append {s s' : σ} {xs ys : List Exchange} (hp : Passes s xs s') :
    unlockings s (xs ++ ys) = unlockings s xs ++ unlockings s' ys := by
  induction xs generalizing s with
  | nil => rw [hp, unlockings, List.nil_append, List.nil_append]
  | cons x xs ih => rw [List.cons_append, unlockings, unlockings, ih hp.2, List.append_assoc]

theorem unlockings_eq_nil {s : σ} {xs : List Exchange} (h : ∀ x ∈ xs, x.unlocking? = none) :
    unlockings s xs = [] := by
  induction xs generalizing s with
  | nil => rfl
  | cons x xs ih =>
    obtain ⟨hx, hxs⟩ := List.forall_mem_cons.1 h
    rw [unlockings, hx, ih hxs]
    rfl

theorem unlockings_ended {s : σ} {r : Request} (hr : ∀ p, r ≠ .unlock p) (limit : Duration)
    (w : Wait) (o : Outcome r.Reply) (xs : List Exchange) :
    unlockings s (.ended r limit w o :: xs) =
      unlockings ((attempt r s).state limit.milliseconds) xs := by
  cases r with
  | unlock p => exact absurd rfl (hr p)
  | _ => rfl

/-- Related states are taken for one another by everybody, and so are those that unlocks of the same
outcome leave them in: what they were unlocked with does not show in what the account does. An
account that gives away itself what it was told is beyond any signer's help. -/
structure Discreet (R : σ → σ → Prop) : Prop where
  offers : ∀ {s s'} (c : Capability), R s s' →
    (Account.offers c s).1 = (Account.offers c s').1 ∧
      R (Account.offers c s).2 (Account.offers c s').2
  attempt : ∀ {s s'} (r : Request), (∀ p, r ≠ .unlock p) → R s s' →
    (Account.attempt r s).Alike R (Account.attempt r s')
  unlock : ∀ {s s'} (p q : List UInt8), R s s' →
    (Account.attempt (.unlock p) s).wait = (Account.attempt (.unlock q) s').wait →
    (Account.attempt (.unlock p) s).result = (Account.attempt (.unlock q) s').result →
    (Account.attempt (.unlock p) s).Alike R (Account.attempt (.unlock q) s')

end Account

/-- What can be seen of the one run can be seen of the other. -/
structure Run.Indistinct {σ α : Type} [Account σ] (R : σ → σ → Prop) (r u : Run σ α) : Prop where
  ending : r.ending = u.ending
  elapsed : r.elapsed = u.elapsed
  events : r.events = u.events
  exchanges : r.exchanges.map Exchange.redacted = u.exchanges.map Exchange.redacted
  account : R r.account u.account
  unlocked : (Account.attempt .isUnlocked r.account).result =
    (Account.attempt .isUnlocked u.account).result

namespace Run.Indistinct
variable {σ α : Type} [Account σ] {R : σ → σ → Prop} {r u : Run σ α}

theorem after (h : r.Indistinct R u) (n : Nat) (es : List Event) {xs ys : List Exchange}
    (hx : xs.map Exchange.redacted = ys.map Exchange.redacted) :
    (r.after n es xs).Indistinct R (u.after n es ys) where
  ending := h.ending
  elapsed := congrArg (n + ·) h.elapsed
  events := congrArg (es ++ ·) h.events
  exchanges := by rw [Run.after, Run.after, List.map_append, List.map_append, hx, h.exchanges]
  account := h.account
  unlocked := h.unlocked

theorem of_related {s s' : σ} (hR : Account.Discreet R) (hs : R s s') (n : Nat) (es : List Event)
    {xs ys : List Exchange} (hx : xs.map Exchange.redacted = ys.map Exchange.redacted)
    (ending : Ending α) : Run.Indistinct R ⟨s, n, es, xs, ending⟩ ⟨s', n, es, ys, ending⟩ :=
  ⟨rfl, rfl, rfl, hx, hs, (hR.attempt .isUnlocked (fun _ => nofun) hs).result⟩

end Run.Indistinct

namespace Process
open Account
variable {σ α : Type} [Account σ] {R : σ → σ → Prop}

theorem indistinct_call {β : Type} {a b : Attempt σ β} (hR : Discreet R) (ha : a.Alike R b)
    {limit : Nat} {left : Option Nat} {session : Option Session}
    {x y : Option (Outcome β) → Exchange} (hx : ∀ o, (x o).redacted = (y o).redacted)
    {r u : Run σ α} (h : left.filter (· < b.wait.capped limit) = none → r.Indistinct R u) :
    Run.Indistinct R
      (match left.filter (· < a.wait.capped limit) with
      | some t => ⟨a.during, t, a.early, [x none], .dropped session⟩
      | none => r.after (a.wait.capped limit) (a.events limit) [x (some (a.outcome limit))])
      (match left.filter (· < b.wait.capped limit) with
      | some t => ⟨b.during, t, b.early, [y none], .dropped session⟩
      | none => u.after (b.wait.capped limit) (b.events limit) [y (some (b.outcome limit))]) := by
  have hxs : ∀ o, [x o].map Exchange.redacted = [y o].map Exchange.redacted := fun o =>
    congrArg (fun x => [x]) (hx o)
  rw [ha.wait, ha.events, ha.outcome, ha.early]
  cases hf : left.filter (· < b.wait.capped limit) with
  | some t => exact .of_related hR ha.during t b.early (hxs none) (.dropped session)
  | none => exact (h hf).after _ _ (hxs _)

theorem unlockings_unlock (p : List UInt8) (limit : Duration) (session : Option Session)
    (f : Outcome Unit → Process α) (left : Option Nat) (s : σ) :
    let a := attempt (.unlock p) s
    let spent := a.wait.capped limit.milliseconds
    unlockings s ((call (.unlock p) limit session f).run left s).exchanges =
      (a.wait, a.result) :: match left.filter (· < spent) with
        | some _ => []
        | none =>
          unlockings (a.state limit.milliseconds) ((f (a.outcome limit.milliseconds)).run
            (left.map (· - spent)) (a.state limit.milliseconds)).exchanges := by
  intro a spent
  rw [run]
  cases left.filter (· < spent) <;> rfl

/-- Alike processes cannot be told apart in related states of a discreet account, if it takes the
unlocks of the one as it takes those of the other, as far as both go. -/
theorem Alike.run_indistinct (hR : Discreet R) {p q : Process α} (h : Alike p q)
    {left : Option Nat} {s s' : σ} (hs : R s s')
    (hu : Concur (unlockings s (p.run left s).exchanges) (unlockings s' (q.run left s').exchanges)) :
    (p.run left s).Indistinct R (q.run left s') := by
  -- The two take each step together, in related states. At an unlock the first two of the unlockings
  -- that are left are its own, so that it is taken the same.
  induction h generalizing left s s' with
  | done a => exact .of_related hR hs 0 [] rfl (.finished a)
  | report e h ih => exact (ih hs hu).after 0 [e] rfl
  | @probe c f g h ih =>
    obtain ⟨ho, hs'⟩ := hR.offers c hs
    unfold run at hu ⊢
    dsimp only at hu ⊢
    rw [ho] at hu ⊢
    exact (ih _ hs' hu).after 0 [] rfl
  | @call r hr limit session f g h ih =>
    have ha := hR.attempt r hr hs
    refine indistinct_call hR ha (x := fun o => .call ⟨r, limit, _, o⟩)
      (y := fun o => .call ⟨r, limit, _, o⟩) (fun o => by rw [ha.wait]) fun hf => ?_
    unfold run at hu
    dsimp only at hu
    rw [ha.wait, ha.outcome, hf] at hu
    change Concur (unlockings s (.ended r limit _ _ :: _))
      (unlockings s' (.ended r limit _ _ :: _)) at hu
    rw [unlockings_ended hr, unlockings_ended hr] at hu
    rw [ha.outcome, ha.wait]
    exact ih _ (ha.state _) hu
  | @unlock p q limit session f g h ih =>
    rw [unlockings_unlock, unlockings_unlock, concur_cons] at hu
    obtain ⟨he, hu⟩ := hu
    have ha := hR.unlock p q hs (congrArg Prod.fst he) (congrArg Prod.snd he)
    refine indistinct_call hR ha (x := fun o => .call ⟨.unlock p, limit, _, o⟩)
      (y := fun o => .call ⟨.unlock q, limit, _, o⟩) (fun o => by rw [ha.wait]; rfl) fun hf => ?_
    rw [ha.wait, hf, ha.outcome] at hu
    rw [ha.outcome, ha.wait]
    exact ih _ (ha.state _) hu

end Process

end Notary
