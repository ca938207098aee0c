import Notary.Clock
import Notary.Scenario
import Notary.Signing

/-! Playing a scenario on one clock. Each step answers with what it led to and with what can be
seen of its account; what a step drops is settled before the next one begins. -/

namespace Notary

namespace Scenario

/-- A step has no outcome only if it names an account or a configuration that is not there. -/
abbrev Play := StateT State Option

namespace Play

def member (i : Nat) : Play Member := do
  match (← get).members[i]? with
  | some m => return m
  | none => failure

def setMember (i : Nat) (m : Member) : Play Unit :=
  modify fun s => { s with members := s.members.set i m }

def emit (events : List Event) : Play Unit :=
  modify fun s => { s with events := s.events ++ events }

def run {α : Type} (i : Nat) (left : Option Nat) (p : String → Process α) :
    Play (Run Party α) := do
  let m ← member i
  let r := (p (Account.name m.party)).run left m.party
  setMember i ⟨r.account, m.untold ++ r.requests⟩
  emit r.events
  return r

def sight (i : Nat) : Play Sight := do
  let m ← member i
  setMember i { m with untold := [] }
  return ⟨m.party.unlocked?, if m.party.tellsCalls then m.untold else []⟩

def report (i : Nat) (answer : Answer) (elapsed : Nat) (interruption : Option Sight) :
    Play Report := do
  return ⟨answer, ← sight i, elapsed, interruption⟩

/-- Drops a session, if there is one, and does the lock that it hands off. The account of the step
is seen before that. -/
def interrupt (i owner : Nat) (session : Option Session) : Play Sight := do
  let seen ← sight i
  discard (run owner none fun account => Session.abandon account session)
  return seen

/-- Runs a process that may be dropped; then time is given to a handed-off lock to come to its
end. -/
def attend {α : Type} (i owner settling : Nat) (dropAfter : Option Nat) (p : String → Process α)
    (answer : α → Play Answer) : Play Report := do
  let r ← run owner dropAfter p
  match r.ending with
  | .finished a => report i (← answer a) r.elapsed none
  | .dropped session =>
    let seen ← interrupt i owner session
    report i .cancelled (r.elapsed + settling) (some seen)

def keepSignature (result : Except Error Signature) : Play Answer := do
  let made := match result with
    | .ok s => some s
    | .error e => e.signature?
  modify fun s => { s with lastSignature := made.or s.lastSignature }
  return .signed result

def verify (i : Nat) (signature : Option Signature)
    (check : Party → Signature → List Event × Except Error Bool) : Play Report := do
  match signature.or (← get).lastSignature with
  | none => report i .unsigned 0 none
  | some s =>
    let (events, result) := check (← member i).party s
    emit events
    report i (.verified result) 0 none

/-- Takes a session out of its slot. -/
def takeSession (slot : Nat) : Play (Option Kept) := do
  let s ← get
  set { s with sessions := s.sessions.filter fun k => k.slot != slot }
  return s.sessions.find? fun k => k.slot == slot

def keepSession (i slot : Nat) : Except Error Session → Play Answer
  | .ok s => do
    discard (takeSession slot)
    modify fun st => { st with sessions := ⟨slot, i, s⟩ :: st.sessions }
    return .began (.ok s.state)
  | .error e => return .began (.error e)

def call (i : Nat) (r : Request) : Play Report := do
  let m ← member i
  let a := Account.attempt r m.party
  match a.wait with
  | .lasting ms =>
    setMember i ⟨a.after, m.untold ++ [r]⟩
    emit (a.early ++ a.late)
    report i (.replied r a.result) ms none
  | .endless =>
    setMember i ⟨a.during, m.untold ++ [r]⟩
    emit a.early
    report i .unanswered 0 none

end Play

/-- Longer than any lock that was handed off under one of the configurations. -/
def settling (configs : List Config) : Nat :=
  (configs.map fun c => c.timeout.milliseconds).foldr max 0 + 1

open Play

def Step.play (configs : List Config) (step : Step) : Play Report := do
  let i := step.account
  let config : Play Config := match configs[step.config]? with
    | some c => return c
    | none => failure
  match step.action with
  | .signPayload payload domain dropAfter =>
    let c ← config
    attend i i (settling configs) dropAfter
      (fun account => Process.signPayload account c payload domain) keepSignature
  | .signRoot root domain dropAfter =>
    let c ← config
    attend i i (settling configs) dropAfter
      (fun account => Process.signRoot account c root domain) keepSignature
  | .verifyPayload payload domain signature =>
    verify i signature fun p s => Account.verifyPayload p payload domain s
  | .verifyRoot root domain signature =>
    verify i signature fun p s => Account.verifyRoot p root domain s
  | .beginSession slot =>
    let c ← config
    attend i i (settling configs) none (fun account => Session.begin account c)
      (keepSession i slot)
  | .closeSession slot dropAfter =>
    match ← takeSession slot with
    | none => report i .noSession 0 none
    | some k =>
      attend i k.owner (settling configs) dropAfter (fun account => k.session.close account)
        fun result => return .closed result
  | .dropSession slot =>
    let kept ← takeSession slot
    let seen ← interrupt i (kept.elim i Kept.owner) (kept.map Kept.session)
    report i (.dropped kept.isSome) (settling configs) (some seen)
  | .dropSessionOutside slot =>
    let kept ← takeSession slot
    match kept.filter fun k => k.session.owesLock with
    | some k => emit [.leftUnlocked (Account.name (← member k.owner).party)]
    | none => pure ()
    report i (.dropped kept.isSome) 0 none
  | .idle ms => report i .nothing ms none
  | .direct request => call i request
  | .probe =>
    let r ← run i none fun _ => Process.capabilities
    let p := r.account
    match r.ending with
    | .finished found =>
      report i (.probed found (Account.name p) (Account.bestKey p) (Account.compositeKey p)) 0 none
    | .dropped _ => failure
  | .describe => report i (.described (← config)) 0 none

/-- All steps in order, and the events of all of them. -/
def play (parties : List Party) (configs : List Config) (steps : List Step) :
    Option (List Report × List Event) := do
  let (reports, s) ← StateT.run (steps.mapM (Step.play configs)) (.ofParties parties)
  return (reports, s.events)

end Scenario

end Notary
