import Notary.Config
import Notary.Process

/-! Sessions with an account that may be locked. Beginning one unlocks the account if need be,
with the first passphrase that it takes; closing one locks it again if the session unlocked it.
A session that is dropped hands its lock off, to be done by a process of its own. -/

namespace Notary.Session

def relock (account : String) (timeout : Duration) (session : Option Session) :
    Process (Except CallError Unit) := do
  if ← Process.offers .locker then
    match ← Process.bounded .lock timeout session with
    | .ok () =>
      Process.emit (.relocked account)
      return .ok ()
    | .error e => return .error e
  else return .ok ()

/-- Locks outside any session, and reports a failure instead of returning it. -/
def relockReporting (occasion : Occasion) (account : String) (timeout : Duration) :
    Process Unit := do
  match ← relock account timeout none with
  | .ok () => return ()
  | .error e => Process.emit (.relockFailed occasion account e)

/-- A passphrase whose call times out may have worked all the same, so the account is locked and
no other is tried. -/
def tryPassphrases (account : String) (timeout : Duration) (attempt : Nat) :
    List Passphrase → Process (Except Error UnlockState)
  | [] => return .error (.unlockFailed account attempt)
  | p :: ps => do
    match ← Process.bounded (.unlock p.bytes) timeout none with
    | .ok () =>
      Process.emit (.unlocked account attempt)
      return .ok .justUnlocked
    | .error (.timedOut operation after) =>
      relockReporting .unlockTimeout account timeout
      return .error (.timeout operation after)
    | .error (.failed _ source) =>
      Process.emit (.passphraseRejected account attempt source)
      tryPassphrases account timeout (attempt + 1) ps

def unlock (account : String) (c : Config) : Process (Except Error UnlockState) := do
  if ← Process.offers .locker then
    match ← Process.bounded .isUnlocked c.timeout none with
    | .ok true =>
      Process.emit (.alreadyUnlocked account)
      return .ok .alreadyUnlocked
    | .ok false => tryPassphrases account c.timeout 0 c.passphrases
    | .error e => return .error (e.toError (.unlockState account))
  else
    Process.emit (.notLockable account)
    return .ok .notLockable

def begin (account : String) (c : Config) : Process (Except Error Session) := do
  match ← unlock account c with
  | .ok state => return .ok ⟨state, c.timeout⟩
  | .error e => return .error e

def close (account : String) (s : Session) : Process (Except CallError Unit) :=
  if s.owesLock then relock account s.timeout (some s) else return .ok ()

/-- The lock that a dropped session hands off. -/
def handedOff (account : String) (s : Session) : Process Unit :=
  relockReporting .interruption account s.timeout

/-- What follows when a process is dropped, with the session that it was in, if any. -/
def abandon (account : String) (session : Option Session) : Process Unit :=
  match session.filter Session.owesLock with
  | none => return ()
  | some s => do
    Process.emit (.interrupted account)
    handedOff account s

end Notary.Session
