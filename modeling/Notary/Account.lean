import Notary.Event

/-! Accounts, seen from outside: what an account offers, and how it takes the calls made to it.
Nothing is assumed of an account; each answer may depend on all that happened to it before. -/

namespace Notary

inductive Request
  | isUnlocked
  | unlock (passphrase : List UInt8)
  | lock
  | sign (digest : Digest)
  | signGeneric (root : Root) (domain : Domain)
deriving DecidableEq, Repr

namespace Request

def operation : Request → Operation
  | isUnlocked => .isUnlocked
  | unlock _ => .unlock
  | lock => .lock
  | sign _ => .sign
  | signGeneric _ _ => .sign

@[reducible] def Reply : Request → Type
  | isUnlocked => Bool
  | unlock _ => Unit
  | lock => Unit
  | sign _ => Signature
  | signGeneric _ _ => Signature

end Request

/-- How long a call keeps its caller waiting, in milliseconds. -/
inductive Wait
  | lasting (ms : Nat)
  | endless
deriving DecidableEq, Repr

namespace Wait

/-- A wait that ends at the very limit is still in time. -/
def within : Wait → Nat → Bool
  | lasting ms, limit => ms ≤ limit
  | endless, _ => false

def capped : Wait → Nat → Nat
  | lasting ms, limit => min ms limit
  | endless, limit => limit

theorem capped_le (w : Wait) (limit : Nat) : w.capped limit ≤ limit := by
  cases w with
  | lasting ms => exact Nat.min_le_right ms limit
  | endless => exact Nat.le_refl limit

end Wait

/-- A call to an account in state `σ`, laid out in time: what happens at once, the wait, and what
happens only to a caller who waits for the end. -/
structure Attempt (σ β : Type) where
  early : List Event
  during : σ
  wait : Wait
  late : List Event
  after : σ
  result : Except AccountError β

def Attempt.immediate {σ β : Type} (events : List Event) (after : σ)
    (result : Except AccountError β) : Attempt σ β :=
  ⟨events, after, .lasting 0, [], after, result⟩

class Account (σ : Type) where
  name : σ → String
  publicKey : σ → Option PublicKey
  /-- The key of the whole, where the account holds one share of a distributed key. -/
  compositeKey : σ → Option PublicKey
  offers : Capability → σ → Bool × σ
  attempt : (r : Request) → σ → Attempt σ r.Reply

/-- The key that signatures of the account are verified with. -/
def Account.bestKey {σ : Type} [Account σ] (a : σ) : Option PublicKey :=
  (compositeKey a).or (publicKey a)

/-- How a call limited in time ended. -/
inductive Outcome (β : Type)
  | returned (b : β)
  | refused (e : AccountError)
  | expired
deriving DecidableEq, Repr

namespace Outcome
variable {β : Type}

def ofResult : Except AccountError β → Outcome β
  | .ok b => returned b
  | .error e => refused e

def toExcept (operation : Operation) (limit : Duration) : Outcome β → Except CallError β
  | returned b => .ok b
  | refused e => .error (.failed operation e)
  | expired => .error (.timedOut operation limit)

end Outcome

namespace Attempt
variable {σ β : Type}

def outcome (a : Attempt σ β) (limit : Nat) : Outcome β :=
  if a.wait.within limit then .ofResult a.result else .expired

def state (a : Attempt σ β) (limit : Nat) : σ :=
  if a.wait.within limit then a.after else a.during

def events (a : Attempt σ β) (limit : Nat) : List Event :=
  if a.wait.within limit then a.early ++ a.late else a.early

end Attempt

end Notary
