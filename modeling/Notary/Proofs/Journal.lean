import Notary.Proofs.Exchanges

/-! The journal of a run: what the process reports and what passes between it and its account, in
the one order in which it happens. What holds of all journals that a process can come to holds of
the journal of every run, and is shown along the process, without any account. -/

namespace Notary

/-- One thing that happens in a run. The account may report events of its own in an exchange; all
other events are reported by the process. -/
inductive Entry
  | event (e : Event)
  | exchange (x : Exchange) (told : List Event)

namespace Entry

def exchange? : Entry → Option Exchange
  | event _ => none
  | exchange x _ => some x

def own? : Entry → Option Event
  | event e => some e
  | exchange _ _ => none

def events : Entry → List Event
  | event e => [e]
  | exchange _ told => told

end Entry

namespace Journal

def exchanges (js : List Entry) : List Exchange := js.filterMap Entry.exchange?

def events (js : List Entry) : List Event := js.flatMap Entry.events

/-- The events that the process reports. -/
def own (js : List Entry) : List Event := js.filterMap Entry.own?

@[simp]
theorem exchanges_append (js ks : List Entry) :
    exchanges (js ++ ks) = exchanges js ++ exchanges ks := List.filterMap_append

@[simp]
theorem events_append (js ks : List Entry) : events (js ++ ks) = events js ++ events ks :=
  List.flatMap_append

@[simp]
theorem own_append (js ks : List Entry) : own (js ++ ks) = own js ++ own ks :=
  List.filterMap_append

end Journal

namespace Process
variable {α β : Type}

section
variable {σ : Type} [Account σ]

/-- What happens in the run of a process, which is dropped when the time that is left is over. -/
def journal (left : Option Nat) : Process α → σ → List Entry
  | done _, _ => []
  | report e next, s => .event e :: next.journal left s
  | probe c next, s =>
    let (offered, s) := Account.offers c s
    .exchange (.answer c offered) [] :: (next offered).journal left s
  | call r limit _ next, s =>
    let a := Account.attempt r s
    let spent := a.wait.capped limit.milliseconds
    let outcome := a.outcome limit.milliseconds
    match left.filter (· < spent) with
    | some _ => [.exchange (.pending r limit a.wait) a.early]
    | none =>
      .exchange (.ended r limit a.wait outcome) (a.events limit.milliseconds) ::
        (next outcome).journal (left.map (· - spent)) (a.state limit.milliseconds)

/-- A run is told by its journal. -/
theorem journal_tells (p : Process α) (left : Option Nat) (s : σ) :
    Journal.exchanges (p.journal left s) = (p.run left s).exchanges ∧
      Journal.events (p.journal left s) = (p.run left s).events := by
  induction p generalizing left s with
  | done a => exact ⟨rfl, rfl⟩
  | report e next ih =>
    obtain ⟨hx, he⟩ := ih left s
    exact ⟨hx, congrArg (e :: ·) he⟩
  | probe c next ih =>
    obtain ⟨hx, he⟩ := ih _ left (Account.offers c s).2
    exact ⟨congrArg (_ :: ·) hx, he⟩
  | call r limit session next ih =>
    unfold journal run
    dsimp only
    -- Either there is not enough time left for the call, or there is.
    cases left.filter (· < (Account.attempt r s).wait.capped limit.milliseconds) with
    | some t => exact ⟨rfl, List.append_nil _⟩
    | none =>
      obtain ⟨hx, he⟩ := ih _ _ _
      exact ⟨congrArg (_ :: ·) hx, congrArg (_ ++ ·) he⟩

end

/-- This holds of every journal and ending that the process can come to, whatever the account
answers and reports and wherever the process is dropped. -/
def Always : Process α → (List Entry → Ending α → Prop) → Prop
  | done a, P => P [] (.finished a)
  | report e next, P => next.Always fun js => P (.event e :: js)
  | probe c next, P =>
    ∀ offered, (next offered).Always fun js => P (.exchange (.answer c offered) [] :: js)
  | call r limit session next, P =>
    (∀ w told, P [.exchange (.pending r limit w) told] (.dropped session)) ∧
      ∀ w o told, (next o).Always fun js => P (.exchange (.ended r limit w o) told :: js)

namespace Always
variable {P Q : List Entry → Ending α → Prop}

theorem mono {p : Process α} (h : p.Always P) (hq : ∀ js ending, P js ending → Q js ending) :
    p.Always Q := by
  induction p generalizing P Q with
  | done a => exact hq _ _ h
  | report e next ih => exact ih h fun js => hq (_ :: js)
  | probe c next ih => exact fun offered => ih offered (h offered) fun js => hq (_ :: js)
  | call r limit session next ih =>
    exact ⟨fun w told => hq _ _ (h.1 w told),
      fun w o told => ih o (h.2 w o told) fun js => hq (_ :: js)⟩

/-- If the first process ends, the second goes on; if it is dropped, so are both. -/
theorem bind {p : Process α} {f : α → Process β} {R : List Entry → Ending β → Prop}
    (h : p.Always fun js => fun
      | .finished a => (f a).Always fun ks => R (js ++ ks)
      | .dropped session => R js (.dropped session)) : (p >>= f).Always R := by
  change (p.bind f).Always R
  induction p generalizing R with
  | done a => exact h
  | report e next ih => exact ih h
  | probe c next ih => exact fun offered => ih offered (h offered)
  | call r limit session next ih => exact ⟨h.1, fun w o told => ih o (h.2 w o told)⟩

theorem emit {e : Event} {f : Unit → Process α}
    (h : (f ()).Always fun js => P (.event e :: js)) : (Process.emit e >>= f).Always P := h

theorem emitAll {es : List Event} {f : Unit → Process α}
    (h : (f ()).Always fun js => P (es.map .event ++ js)) :
    (Process.emitAll es >>= f).Always P := by
  induction es generalizing P with
  | nil => exact h
  | cons e es ih => exact ih h

theorem offers {c : Capability} {f : Bool → Process α}
    (h : ∀ offered, (f offered).Always fun js => P (.exchange (.answer c offered) [] :: js)) :
    (Process.offers c >>= f).Always P := h

theorem bounded {r : Request} {limit : Duration} {session : Option Session}
    {f : Except CallError r.Reply → Process α}
    (hp : ∀ w told, P [.exchange (.pending r limit w) told] (.dropped session))
    (h : ∀ w o told, (f (o.toExcept r.operation limit)).Always fun js =>
      P (.exchange (.ended r limit w o) told :: js)) :
    (Process.bounded r limit session >>= f).Always P := ⟨hp, h⟩

/-- What always holds, holds of a run. -/
theorem run {σ : Type} [Account σ] {p : Process α} (h : p.Always P) (left : Option Nat) (s : σ) :
    P (p.journal left s) (p.run left s).ending := by
  induction p generalizing left s P with
  | done a => exact h
  | report e next ih => exact ih h left s
  | probe c next ih => exact ih _ (h _) left _
  | call r limit session next ih =>
    unfold journal Process.run
    dsimp only
    cases left.filter (· < (Account.attempt r s).wait.capped limit.milliseconds) with
    | some t => exact h.1 _ _
    | none => exact ih _ (h.2 _ _ _) _ _

end Always

end Process

end Notary
