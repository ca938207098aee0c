import Notary.Process

/-! Running a process against an account on a clock that stands still but for the waits of calls.
A process may be dropped at a given time: it goes on for as long as the next thing to happen is
not later than that. -/

namespace Notary

/-- A call that was made, and how long it was given. It has no outcome if the process was dropped
while it was waiting. -/
structure Call where
  request : Request
  limit : Duration
  wait : Wait
  outcome : Option (Outcome request.Reply)

/-- What passes between a process and its account: what the account says it offers, and calls. -/
inductive Exchange
  | answer (c : Capability) (offered : Bool)
  | call (k : Call)

namespace Exchange

def call? : Exchange → Option Call
  | answer _ _ => none
  | call k => some k

def ended (r : Request) (limit : Duration) (w : Wait) (o : Outcome r.Reply) : Exchange :=
  call ⟨r, limit, w, some o⟩

def pending (r : Request) (limit : Duration) (w : Wait) : Exchange := call ⟨r, limit, w, none⟩

end Exchange

inductive Ending (α : Type)
  | finished (a : α)
  | dropped (session : Option Session)
deriving DecidableEq, Repr

structure Run (σ α : Type) where
  account : σ
  elapsed : Nat
  events : List Event
  exchanges : List Exchange
  ending : Ending α

namespace Run
variable {σ α : Type}

/-- The run with something that went before it. -/
def after (r : Run σ α) (elapsed : Nat) (events : List Event) (exchanges : List Exchange) :
    Run σ α :=
  ⟨r.account, elapsed + r.elapsed, events ++ r.events, exchanges ++ r.exchanges, r.ending⟩

def calls (r : Run σ α) : List Call := r.exchanges.filterMap Exchange.call?

def requests (r : Run σ α) : List Request := r.calls.map Call.request

end Run

namespace Process
variable {σ α : Type} [Account σ]

/-- `left` is the time until the process is dropped, if it is to be dropped. -/
def run (left : Option Nat) : Process α → σ → Run σ α
  | done a, s => ⟨s, 0, [], [], .finished a⟩
  | report e next, s => (next.run left s).after 0 [e] []
  | probe c next, s =>
    let (offered, s) := Account.offers c s
    ((next offered).run left s).after 0 [] [.answer c offered]
  | call r limit session next, s =>
    let a := Account.attempt r s
    let spent := a.wait.capped limit.milliseconds
    let outcome := a.outcome limit.milliseconds
    match left.filter (· < spent) with
    | some t => ⟨a.during, t, a.early, [.pending r limit a.wait], .dropped session⟩
    | none =>
      ((next outcome).run (left.map (· - spent)) (a.state limit.milliseconds)).after spent
        (a.events limit.milliseconds) [.ended r limit a.wait outcome]

end Process

end Notary
