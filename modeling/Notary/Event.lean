import Notary.Error

/-! What is reported while signing: each event with its level, its message and its fields. -/

namespace Notary

inductive Level
  | debug
  | warn
  | error
deriving DecidableEq, Repr

def Level.label : Level → String
  | debug => "DEBUG"
  | warn => "WARN"
  | error => "ERROR"

/-- Where a relock is owed. -/
inductive Occasion
  | unlockTimeout
  | close
  | interruption
deriving DecidableEq, Repr

inductive Event
  | objectRoot (root : Root)
  | signingContainer (root : Root) (domain : Domain)
  | signingRoot (digest : Digest)
  | notLockable (account : String)
  | alreadyUnlocked (account : String)
  | unlocked (account : String) (attempt : Nat)
  | passphraseRejected (account : String) (attempt : Nat) (source : AccountError)
  | relocked (account : String)
  | relockFailed (occasion : Occasion) (account : String) (source : CallError)
  | protectedSigning (account : String) (root : Root) (domain : Domain)
  | digestSigning (account : String) (digest : Digest)
  | signingFailed (account : String) (source : Error)
  | interrupted (account : String)
  | leftUnlocked (account : String)
deriving DecidableEq, Repr

namespace Event

def level : Event → Level
  | relockFailed _ _ _ | signingFailed _ _ | leftUnlocked _ => .error
  | interrupted _ => .warn
  | _ => .debug

def message : Event → String
  | objectRoot _ => "Object root"
  | signingContainer _ _ => "Signing container"
  | signingRoot _ => "Signing root"
  | notLockable _ => "Account does not support unlocking"
  | alreadyUnlocked _ => "Account already unlocked"
  | unlocked _ _ => "Account unlocked"
  | passphraseRejected _ _ _ => "Passphrase rejected"
  | relocked _ => "Account relocked"
  | relockFailed .unlockTimeout _ _ => "Failed to relock account after unlock timeout"
  | relockFailed .close _ _ => "Failed to relock account"
  | relockFailed .interruption _ _ => "Failed to relock account after interruption"
  | protectedSigning _ _ _ => "Signing root"
  | digestSigning _ _ => "Signing digest"
  | signingFailed _ _ => "Signing failed"
  | interrupted _ => "Signing interrupted, relocking account"
  | leftUnlocked _ => "No runtime available to relock account; account left unlocked"

def fields : Event → List (String × String)
  | objectRoot root => [("root", root.text)]
  | signingContainer root domain => [("root", root.text), ("domain", domain.text)]
  | signingRoot digest => [("signing_root", digest.text)]
  | notLockable account | alreadyUnlocked account | relocked account | interrupted account
  | leftUnlocked account => [("account", account)]
  | unlocked account attempt => [("account", account), ("attempt", toString attempt)]
  | passphraseRejected account attempt source =>
    [("account", account), ("attempt", toString attempt), ("error", source.message)]
  | relockFailed _ account source => [("account", account), ("error", source.message)]
  | protectedSigning account root domain =>
    [("account", account), ("root", root.text), ("domain", domain.text)]
  | digestSigning account digest => [("account", account), ("digest", digest.text)]
  | signingFailed account source => [("account", account), ("error", source.message)]

end Event

/-- What building the digest of a root in a domain reports. -/
def digestEvents (root : Root) (domain : Domain) : List Event :=
  [.signingContainer root domain, .signingRoot (signingDigest root domain)]

end Notary
