import Notary.Clock

/-! What passes between a process and its account, seen from either side. To the process, a log of
exchanges is one that it may lead to, whatever it is told. To the account, every exchange is
answered in the state that the exchanges before it have left. A run is both at once, so that a
statement about all runs splits into one about the process and one about the account. -/

namespace Notary

namespace Ending
variable {α β : Type}

def map (f : α → β) : Ending α → Ending β
  | finished a => finished (f a)
  | dropped session => dropped session

theorem finished_eq_map_iff {f : α → β} {b : β} {e : Ending α} :
    finished b = e.map f ↔ ∃ a, e = finished a ∧ b = f a := by
  cases e <;> simp [map]

theorem dropped_eq_map_iff {f : α → β} {session : Option Session} {e : Ending α} :
    dropped session = e.map f ↔ e = dropped session := by
  cases e <;> simp [map, eq_comm]

end Ending

namespace Process
variable {α β : Type}

/-- The logs that a process may lead to, over all answers and outcomes, and how it ends. -/
inductive Leads : Process α → List Exchange → Ending α → Prop
  | done {a : α} : Leads (done a) [] (.finished a)
  | report {e : Event} {next : Process α} {xs : List Exchange} {ending : Ending α} :
      Leads next xs ending → Leads (report e next) xs ending
  | probe {c : Capability} {next : Bool → Process α} {offered : Bool} {xs : List Exchange}
      {ending : Ending α} :
      Leads (next offered) xs ending → Leads (probe c next) (.answer c offered :: xs) ending
  | ended {r : Request} {limit : Duration} {session : Option Session}
      {next : Outcome r.Reply → Process α} {w : Wait} {o : Outcome r.Reply} {xs : List Exchange}
      {ending : Ending α} :
      Leads (next o) xs ending →
        Leads (call r limit session next) (.ended r limit w o :: xs) ending
  | pending {r : Request} {limit : Duration} {session : Option Session}
      {next : Outcome r.Reply → Process α} {w : Wait} :
      Leads (call r limit session next) [.pending r limit w] (.dropped session)

theorem leads_pure {a : α} {xs : List Exchange} {ending : Ending α}
    (h : Leads (pure a) xs ending) : xs = [] ∧ ending = .finished a := by
  cases h
  exact ⟨rfl, rfl⟩

/-- Either the first process ends and the second goes on, or the first is dropped. -/
theorem leads_bind {p : Process α} {f : α → Process β} {xs : List Exchange} {ending : Ending β}
    (h : Leads (p >>= f) xs ending) :
    (∃ ys zs a, xs = ys ++ zs ∧ Leads p ys (.finished a) ∧ Leads (f a) zs ending) ∨
      ∃ session, ending = .dropped session ∧ Leads p xs (.dropped session) := by
  change Leads (p.bind f) xs ending at h
  -- The first process sees one exchange after the other; each is put in front of what is left.
  induction p generalizing xs with
  | done a => exact Or.inl ⟨[], xs, a, rfl, .done, h⟩
  | report e next ih =>
    cases h with
    | report h =>
      rcases ih h with ⟨ys, zs, a, rfl, h₁, h₂⟩ | ⟨session, rfl, h₁⟩
      · exact Or.inl ⟨ys, zs, a, rfl, .report h₁, h₂⟩
      · exact Or.inr ⟨session, rfl, .report h₁⟩
  | probe c next ih =>
    cases h with
    | probe h =>
      rcases ih _ h with ⟨ys, zs, a, rfl, h₁, h₂⟩ | ⟨session, rfl, h₁⟩
      · exact Or.inl ⟨_ :: ys, zs, a, rfl, .probe h₁, h₂⟩
      · exact Or.inr ⟨session, rfl, .probe h₁⟩
  | call r limit session next ih =>
    cases h with
    | ended h =>
      rcases ih _ h with ⟨ys, zs, a, rfl, h₁, h₂⟩ | ⟨session, rfl, h₁⟩
      · exact Or.inl ⟨_ :: ys, zs, a, rfl, .ended h₁, h₂⟩
      · exact Or.inr ⟨session, rfl, .ended h₁⟩
    | pending => exact Or.inr ⟨session, rfl, .pending⟩

theorem leads_emit {e : Event} {f : Unit → Process α} {xs : List Exchange} {ending : Ending α}
    (h : Leads (emit e >>= f) xs ending) : Leads (f ()) xs ending := by
  cases h with
  | report h => exact h

theorem leads_emitAll {es : List Event} {f : Unit → Process α} {xs : List Exchange}
    {ending : Ending α} (h : Leads (emitAll es >>= f) xs ending) : Leads (f ()) xs ending := by
  induction es with
  | nil => exact h
  | cons e es ih =>
    cases h with
    | report h => exact ih h

theorem leads_offers {c : Capability} {f : Bool → Process α} {xs : List Exchange}
    {ending : Ending α} (h : Leads (offers c >>= f) xs ending) :
    ∃ offered ys, xs = .answer c offered :: ys ∧ Leads (f offered) ys ending := by
  cases h with
  | probe h => exact ⟨_, _, rfl, h⟩

theorem leads_capabilities {f : Capabilities → Process α} {xs : List Exchange} {ending : Ending α}
    (h : Leads (capabilities >>= f) xs ending) :
    ∃ l p g ys, xs = .answer .locker l :: .answer .protectingSigner p :: .answer .signer g :: ys ∧
      Leads (f ⟨l, p, g⟩) ys ending := by
  change Leads (probe .locker fun l => probe .protectingSigner fun p => probe .signer fun g =>
    f ⟨l, p, g⟩) xs ending at h
  cases h with
  | probe h =>
    cases h with
    | probe h =>
      cases h with
      | probe h => exact ⟨_, _, _, _, rfl, h⟩

theorem leads_bounded {r : Request} {limit : Duration} {session : Option Session}
    {f : Except CallError r.Reply → Process α} {xs : List Exchange} {ending : Ending α}
    (h : Leads (bounded r limit session >>= f) xs ending) :
    (∃ w o ys, xs = .ended r limit w o :: ys ∧
      Leads (f (o.toExcept r.operation limit)) ys ending) ∨
      ∃ w, xs = [.pending r limit w] ∧ ending = .dropped session := by
  cases h with
  | ended h => exact Or.inl ⟨_, _, _, rfl, h⟩
  | pending => exact Or.inr ⟨_, rfl, rfl⟩

section
variable {σ : Type} [Account σ]

theorem run_leads (p : Process α) (left : Option Nat) (s : σ) :
    Leads p (p.run left s).exchanges (p.run left s).ending := by
  induction p generalizing left s with
  | done a => exact .done
  | report e next ih => exact .report (ih left s)
  | probe c next ih => exact .probe (ih _ left _)
  | call r limit session next ih =>
    unfold run
    dsimp only
    -- Either there is not enough time left for the call, or there is.
    split
    · exact .pending
    · exact .ended (ih _ _ _)

/-- A process that is not to be dropped comes to its end. -/
theorem run_none_finished (p : Process α) (s : σ) : ∃ a, (p.run none s).ending = .finished a := by
  induction p generalizing s with
  | done a => exact ⟨a, rfl⟩
  | report e next ih => exact ih s
  | probe c next ih => exact ih _ _
  | call r limit session next ih => exact ih _ _

theorem run_none_leads (p : Process α) (s : σ) :
    ∃ a, (p.run none s).ending = .finished a ∧ Leads p (p.run none s).exchanges (.finished a) := by
  obtain ⟨a, ha⟩ := run_none_finished p s
  have hx := run_leads p none s
  rw [ha] at hx
  exact ⟨a, ha, hx⟩

end

end Process

namespace Exchange
variable {σ : Type} [Account σ]

/-- The state that an exchange leaves an account in. -/
def next (s : σ) : Exchange → σ
  | answer c _ => (Account.offers c s).2
  | call ⟨r, limit, _, some _⟩ => (Account.attempt r s).state limit.milliseconds
  | call ⟨r, _, _, none⟩ => (Account.attempt r s).during

/-- The account's part of an exchange is what the account gives in this state. -/
def Holds (s : σ) : Exchange → Prop
  | answer c offered => (Account.offers c s).1 = offered
  | call ⟨r, limit, w, some o⟩ =>
    (Account.attempt r s).wait = w ∧ (Account.attempt r s).outcome limit.milliseconds = o
  | call ⟨r, _, w, none⟩ => (Account.attempt r s).wait = w

end Exchange

namespace Account
variable {σ : Type} [Account σ]

/-- The account passes from one state to another by these exchanges. -/
def Passes : σ → List Exchange → σ → Prop
  | s, [], s' => s = s'
  | s, x :: xs, s' => x.Holds s ∧ Passes (x.next s) xs s'

theorem passes_append {s s'' : σ} {xs ys : List Exchange} :
    Passes s (xs ++ ys) s'' ↔ ∃ s', Passes s xs s' ∧ Passes s' ys s'' := by
  induction xs generalizing s with
  | nil => simp [Passes]
  | cons x xs ih => simp only [List.cons_append, Passes, ih, exists_and_left, and_assoc]

theorem passes_unique {s s₁ s₂ : σ} {xs : List Exchange} (h₁ : Passes s xs s₁)
    (h₂ : Passes s xs s₂) : s₁ = s₂ := by
  induction xs generalizing s with
  | nil => exact h₁.symm.trans h₂
  | cons x xs ih => exact ih h₁.2 h₂.2

theorem run_passes {α : Type} (p : Process α) (left : Option Nat) (s : σ) :
    Passes s (p.run left s).exchanges (p.run left s).account := by
  induction p generalizing left s with
  | done a => exact rfl
  | report e next ih => exact ih left s
  | probe c next ih => exact ⟨rfl, ih _ left _⟩
  | call r limit session next ih =>
    unfold Process.run
    dsimp only
    split
    · exact ⟨rfl, rfl⟩
    · exact ⟨⟨rfl, rfl⟩, ih _ _ _⟩

/-- What every exchange keeps, a whole passage keeps. -/
theorem Passes.invariant {I : σ → Prop} (step : ∀ s x, I s → I (Exchange.next s x)) {s s' : σ}
    {xs : List Exchange} (h : Passes s xs s') (hs : I s) : I s' := by
  induction xs generalizing s with
  | nil => exact h ▸ hs
  | cons x xs ih => exact ih h.2 (step s x hs)

end Account

end Notary
