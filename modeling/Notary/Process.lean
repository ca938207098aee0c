import Notary.Account

/-! What a signer does, as a tree: it asks the account for capabilities, makes bounded calls and
reports events, and each answer chooses how it goes on. Every branch is finite. -/

namespace Notary

/-- How the account came to be usable. -/
inductive UnlockState
  | notLockable
  | alreadyUnlocked
  | justUnlocked
deriving DecidableEq, Repr

def UnlockState.title : UnlockState → String
  | notLockable => "NotLockable"
  | alreadyUnlocked => "AlreadyUnlocked"
  | justUnlocked => "JustUnlocked"

structure Session where
  state : UnlockState
  timeout : Duration
deriving DecidableEq, Repr

/-- A session owes the account a lock exactly if it unlocked it. -/
def Session.owesLock (s : Session) : Bool := s.state == .justUnlocked

/-- A call names the session it is made in: whoever drops the process there drops that session. -/
inductive Process (α : Type)
  | done (a : α)
  | report (e : Event) (next : Process α)
  | probe (c : Capability) (next : Bool → Process α)
  | call (r : Request) (limit : Duration) (session : Option Session)
      (next : Outcome r.Reply → Process α)

namespace Process
variable {α β : Type}

def bind : Process α → (α → Process β) → Process β
  | done a, f => f a
  | report e next, f => report e (next.bind f)
  | probe c next, f => probe c fun b => (next b).bind f
  | call r limit session next, f => call r limit session fun o => (next o).bind f

instance : Monad Process where
  pure := done
  bind := bind

def emit (e : Event) : Process Unit := report e (done ())

def emitAll : List Event → Process Unit
  | [] => done ()
  | e :: es => report e (emitAll es)

def offers (c : Capability) : Process Bool := probe c done

def bounded (r : Request) (limit : Duration) (session : Option Session) :
    Process (Except CallError r.Reply) :=
  call r limit session fun o => done (o.toExcept r.operation limit)

def capabilities : Process Capabilities := do
  let locker ← offers .locker
  let protectingSigner ← offers .protectingSigner
  let signer ← offers .signer
  return ⟨locker, protectingSigner, signer⟩

theorem bind_assoc {γ : Type} (p : Process α) (f : α → Process β) (g : β → Process γ) :
    (p.bind f).bind g = p.bind fun a => (f a).bind g := by
  induction p with
  | done a => rfl
  | report e next ih => simp only [bind, ih]
  | probe c next ih => simp only [bind, ih]
  | call r limit session next ih => simp only [bind, ih]

end Process

end Notary
