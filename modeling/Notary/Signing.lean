import Notary.Session

/-! Signing and verifying. A protecting signer is given the root and the domain; any other signer
is given the digest of the two. Either is called once, within a session. -/

namespace Notary

namespace Process

/-- What the account is to sign. -/
inductive Order
  | ofRoot (root : Root) (domain : Domain)
  | ofDigest (digest : Digest)
deriving DecidableEq, Repr

namespace Order

def capability : Order → Capability
  | ofRoot _ _ => .protectingSigner
  | ofDigest _ => .signer

def event (account : String) : Order → Event
  | ofRoot root domain => .protectedSigning account root domain
  | ofDigest digest => .digestSigning account digest

def call (s : Session) : Order → Process (Except CallError Signature)
  | ofRoot root domain => bounded (.signGeneric root domain) s.timeout (some s)
  | ofDigest digest => bounded (.sign digest) s.timeout (some s)

end Order

def dispatch (account : String) (s : Session) (order : Order) :
    Process (Except Error Signature) := do
  if ← offers order.capability then
    emit (order.event account)
    return (← order.call s).mapError (CallError.toError .signing)
  else return .error (.unsupportedCapability account order.capability)

/-- A lock that fails at the end takes the place of the signer's own outcome, but keeps a
signature. -/
def settle (account : String) (outcome : Except Error Signature) (source : CallError) :
    Process (Except Error Signature) := do
  emit (.relockFailed .close account source)
  match outcome with
  | .ok signature => return .error (.relockFailed account (some signature) source)
  | .error e =>
    emit (.signingFailed account e)
    return .error (.relockFailed account none source)

def signInSession (account : String) (c : Config) (order : Order) :
    Process (Except Error Signature) := do
  match ← Session.begin account c with
  | .error e => return .error e
  | .ok s =>
    let outcome ← dispatch account s order
    match ← s.close account with
    | .ok () => return outcome
    | .error source => settle account outcome source

def signRoot (account : String) (c : Config) (root : Root) (domain : Domain) :
    Process (Except Error Signature) := do
  match c.validate with
  | .error e => return .error e
  | .ok () =>
    let found ← capabilities
    if found.protectingSigner then signInSession account c (.ofRoot root domain)
    else
      emitAll (digestEvents root domain)
      if found.signer then signInSession account c (.ofDigest (signingDigest root domain))
      else return .error (.unsupportedCapability account .signer)

def signPayload (account : String) (c : Config) (payload : Payload) (domain : Domain) :
    Process (Except Error Signature) :=
  match payload.root with
  | .error e => return .error (.noRoot e)
  | .ok root => report (.objectRoot root) (signRoot account c root domain)

end Process

namespace Account
variable {σ : Type} [Account σ]

/-- Whether the signature is the account's for a root in a domain, after what that reports. -/
def verifyRoot (a : σ) (root : Root) (domain : Domain) (s : Signature) :
    List Event × Except Error Bool :=
  (digestEvents root domain,
    match bestKey a with
    | none => .error (.publicKeyUnavailable (name a))
    | some k => .ok (s.verifies (signingDigest root domain) k))

def verifyPayload (a : σ) (payload : Payload) (domain : Domain) (s : Signature) :
    List Event × Except Error Bool :=
  match payload.root with
  | .error e => ([], .error (.noRoot e))
  | .ok root =>
    let (events, result) := verifyRoot a root domain s
    (.objectRoot root :: events, result)

end Account

end Notary
