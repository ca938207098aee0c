import Notary.Party
import Notary.Session

/-! What a scenario consists of: several accounts, steps that use them one after another, sessions
kept in slots between the steps, and what each step reports. -/

namespace Notary

namespace Scenario

inductive Action
  | signPayload (payload : Payload) (domain : Domain) (dropAfter : Option Nat)
  | signRoot (root : Root) (domain : Domain) (dropAfter : Option Nat)
  | verifyPayload (payload : Payload) (domain : Domain) (signature : Option Signature)
  | verifyRoot (root : Root) (domain : Domain) (signature : Option Signature)
  | beginSession (slot : Nat)
  | closeSession (slot : Nat) (dropAfter : Option Nat)
  | dropSession (slot : Nat)
  | dropSessionOutside (slot : Nat)
  | idle (ms : Nat)
  | direct (request : Request)
  | probe
  | describe

structure Step where
  account : Nat
  config : Nat
  action : Action

/-- What can be seen of an account: its lock, and the calls made to it since it was last seen. -/
structure Sight where
  unlocked : Option Bool
  calls : List Request
deriving DecidableEq, Repr

inductive Answer
  | signed (result : Except Error Signature)
  | verified (result : Except Error Bool)
  | unsigned
  | began (result : Except Error UnlockState)
  | closed (result : Except CallError Unit)
  | noSession
  | dropped (existed : Bool)
  | cancelled
  | nothing
  | replied (request : Request) (result : Except AccountError request.Reply)
  | unanswered
  | probed (found : Capabilities) (name : String) (best composite : Option PublicKey)
  | described (config : Config)

structure Report where
  answer : Answer
  sight : Sight
  elapsed : Nat
  /-- Taken at the moment at which the step dropped what it was doing. -/
  interruption : Option Sight

structure Member where
  party : Party
  untold : List Request

structure Kept where
  slot : Nat
  owner : Nat
  session : Session

structure State where
  members : List Member
  sessions : List Kept
  lastSignature : Option Signature
  events : List Event

def State.ofParties (ps : List Party) : State := ⟨ps.map fun p => ⟨p, []⟩, [], none, []⟩

end Scenario

end Notary
