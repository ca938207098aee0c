import Notary.Capability
import Notary.Digest
import Notary.Duration
import Notary.Ed25519

/-! What can go wrong: in an account, in one bounded call to it, and in a request to sign or
verify as a whole. Each error has a message and the messages of its causes, nearest first. -/

namespace Notary

/-- The calls to an account that are bounded in time. -/
inductive Operation
  | isUnlocked
  | unlock
  | lock
  | sign
deriving DecidableEq, Repr

def Operation.label : Operation → String
  | isUnlocked => "unlock state query"
  | unlock => "unlock"
  | lock => "lock"
  | sign => "sign"

inductive Refusal
  | notProtecting
  | alreadySigned (root : Root) (domain : Domain)
  | stated (reason : String)
deriving DecidableEq, Repr

def Refusal.reason : Refusal → String
  | notProtecting => "account is not protecting"
  | alreadySigned root domain => "root " ++ root.text ++ " already signed in domain " ++ domain.text
  | stated reason => reason

inductive AccountError
  | locked
  | incorrectPassphrase
  | refused (refusal : Refusal)
  | other (text : String) (cause : Option String)
deriving DecidableEq, Repr

namespace AccountError

def message : AccountError → String
  | locked => "Account is locked"
  | incorrectPassphrase => "Incorrect passphrase"
  | refused refusal => "Refused: " ++ refusal.reason
  | other text _ => text

def causes : AccountError → List String
  | other _ cause => cause.toList
  | _ => []

end AccountError

inductive CallError
  | timedOut (operation : Operation) (after : Duration)
  | failed (operation : Operation) (source : AccountError)
deriving DecidableEq, Repr

def timeoutMessage (operation : Operation) (after : Duration) : String :=
  operation.label ++ " timed out after " ++ after.text

namespace CallError

def operation : CallError → Operation
  | timedOut operation _ => operation
  | failed operation _ => operation

def isTimeout : CallError → Bool
  | timedOut _ _ => true
  | failed _ _ => false

def message : CallError → String
  | timedOut operation after => timeoutMessage operation after
  | failed operation source => operation.label ++ " failed: " ++ source.message

def causes : CallError → List String
  | timedOut _ _ => []
  | failed _ source => source.message :: source.causes

end CallError

/-- The last six arise from settings, bytes and texts given from outside. -/
inductive Error
  | noRoot (source : RootError)
  | unsupportedCapability (account : String) (capability : Capability)
  | unlockState (account : String) (source : AccountError)
  | unlockFailed (account : String) (attempts : Nat)
  | timeout (operation : Operation) (after : Duration)
  | signing (source : AccountError)
  | relockFailed (account : String) (signature : Option Signature) (source : CallError)
  | publicKeyUnavailable (account : String)
  | zeroTimeout
  | invalidLength (part : Part) (actual : Nat)
  | signatureLength (actual : Nat)
  | invalidPublicKey
  | invalidSignature (fault : Ed25519.Fault)
  | malformedConfig
deriving DecidableEq, Repr

namespace Error

def message : Error → String
  | noRoot source => "Payload canonicalization failed: " ++ source.message
  | unsupportedCapability account capability =>
    "Account " ++ account ++ " does not support " ++ capability.label
  | unlockState account source =>
    "Unable to ascertain if account " ++ account ++ " is unlocked: " ++ source.message
  | unlockFailed account attempts =>
    "Failed to unlock account " ++ account ++ " after " ++ toString attempts
      ++ " passphrase attempt(s)"
  | timeout operation after => timeoutMessage operation after
  | signing source => "Failed to sign: " ++ source.message
  | relockFailed account _ source => "Failed to lock account " ++ account ++ ": " ++ source.message
  | publicKeyUnavailable account => "Failed to obtain public key for account " ++ account
  | zeroTimeout => "Invalid configuration: timeout must be greater than zero"
  | invalidLength part actual =>
    "Invalid " ++ part.label ++ " length: expected 32 bytes, got " ++ toString actual
  | signatureLength actual => "signature must be 64 bytes, got " ++ toString actual
  | invalidPublicKey => "Invalid public key: signature error: Cannot decompress Edwards point"
  | invalidSignature fault => "Invalid signature: signature error: " ++ fault.message
  | malformedConfig => "Failed to parse signing configuration"

def causes : Error → List String
  | noRoot source => [source.message]
  | unlockState _ source => source.message :: source.causes
  | signing source => source.message :: source.causes
  | relockFailed _ _ source => source.message :: source.causes
  | _ => []

/-- The signature made before the error arose. -/
def signature? : Error → Option Signature
  | relockFailed _ signature _ => signature
  | _ => none

/-- Whether key material may have been left exposed. -/
def isSecurityRelevant : Error → Bool
  | relockFailed _ _ _ => true
  | _ => false

end Error

/-- Carries a timeout over, and says of any other failure what it means. -/
def CallError.toError (failed : AccountError → Error) : CallError → Error
  | timedOut operation after => .timeout operation after
  | .failed _ source => failed source

namespace Block

def ofBytes (p : Part) (bs : List UInt8) : Except Error (Block p) :=
  match ofBytes? p bs with
  | some b => .ok b
  | none => .error (.invalidLength p bs.length)

end Block

/-- The root is looked at first. -/
def SigningContainer.ofBytes (root domain : List UInt8) : Except Error SigningContainer := do
  let root ← Block.ofBytes .root root
  let domain ← Block.ofBytes .domain domain
  return ⟨root, domain⟩

namespace Signature

def ofBytes (bs : List UInt8) : Except Error Signature :=
  match ofBytes? bs with
  | some s => .ok s
  | none => .error (.signatureLength bs.length)

end Signature

namespace PublicKey

def ofOctets (o : Octets 32) : Except Error PublicKey :=
  match ofOctets? o with
  | some k => .ok k
  | none => .error .invalidPublicKey

def check (k : PublicKey) (message : List UInt8) (s : Signature) : Except Error Unit :=
  (k.verify message s).mapError .invalidSignature

end PublicKey

end Notary
