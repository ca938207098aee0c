import Notary.Account

/-! Accounts that follow a script. Each call, and each question what the account offers, takes the
next entry of its list; the last entry serves for all that come after. -/

namespace Notary

/-- How one call goes: how long it waits, whether it waits after its work or before, and whether
it fails instead of working. A failure after the work would never wait. -/
structure Behaviour where
  wait : Wait
  worksFirst : Bool
  failure : Option AccountError
deriving DecidableEq, Repr

namespace Behaviour

def plain : Behaviour := ⟨.lasting 0, false, none⟩

/-- What the work of a call leads to: the new state, what it reports, and its result. -/
abbrev Work (σ β : Type) := σ × List Event × Except AccountError β

def attempt {σ β : Type} (b : Behaviour) (s : σ) (work : Work σ β) : Attempt σ β :=
  match b.worksFirst, b.failure with
  | false, none => ⟨[], s, b.wait, work.2.1, work.1, work.2.2⟩
  | false, some e => ⟨[], s, b.wait, [], s, .error e⟩
  | true, none => ⟨work.2.1, work.1, b.wait, [], work.1, work.2.2⟩
  | true, some e => .immediate [] s (.error e)

end Behaviour

/-- The entry that is due, and what is left for later. -/
def takeEntry {α : Type} (fallback : α) : List α → α × List α
  | [] => (fallback, [])
  | [a] => (a, [a])
  | a :: rest => (a, rest)

structure Scripted where
  name : String
  keypair : Keypair
  publishesKey : Bool
  composite : Option Keypair
  passphrase : List UInt8
  unlocked : Bool
  offering : Capability → List Bool
  behaving : Operation → List Behaviour

namespace Scripted

def takeBehaviour (s : Scripted) (o : Operation) : Behaviour × Scripted :=
  let (b, rest) := takeEntry .plain (s.behaving o)
  (b, { s with behaving := fun o' => if o' = o then rest else s.behaving o' })

def takeOffer (s : Scripted) (c : Capability) : Bool × Scripted :=
  let (b, rest) := takeEntry false (s.offering c)
  (b, { s with offering := fun c' => if c' = c then rest else s.offering c' })

def work : (r : Request) → Scripted → Behaviour.Work Scripted r.Reply
  | .isUnlocked, s => (s, [], .ok s.unlocked)
  | .unlock passphrase, s =>
    if passphrase = s.passphrase then ({ s with unlocked := true }, [], .ok ())
    else (s, [], .error .incorrectPassphrase)
  | .lock, s => ({ s with unlocked := false }, [], .ok ())
  | .sign digest, s =>
    (s, [], if s.unlocked then .ok (s.keypair.sign digest.bytes) else .error .locked)
  | .signGeneric root domain, s =>
    (s, digestEvents root domain,
      if s.unlocked then .ok (s.keypair.sign (signingDigest root domain).bytes)
      else .error .locked)

instance : Account Scripted where
  name := name
  publicKey s := if s.publishesKey then some s.keypair.publicKey else none
  compositeKey s := s.composite.map Keypair.publicKey
  offers c s := s.takeOffer c
  attempt r s :=
    let (b, s) := s.takeBehaviour r.operation
    b.attempt s (work r s)

end Scripted

end Notary
