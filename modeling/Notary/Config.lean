import Notary.Error

/-! What a signing request is given: how long each call to the account may take, and the
passphrases to try, in order. -/

namespace Notary

structure Passphrase where
  bytes : List UInt8
deriving DecidableEq, Repr

def Passphrase.ofText (s : String) : Passphrase := ⟨s.toUTF8.toList⟩

/-- Shows nothing of the passphrase. -/
def Passphrase.brief (_ : Passphrase) : String := "Passphrase(<redacted>)"

structure Config where
  timeout : Duration
  passphrases : List Passphrase
deriving DecidableEq, Repr

namespace Config

def standardTimeout : Duration := .ofSeconds 10

def standard : Config := ⟨standardTimeout, []⟩

def withTimeout (c : Config) (timeout : Duration) : Config := { c with timeout }

def withPassphrase (c : Config) (p : Passphrase) : Config :=
  { c with passphrases := c.passphrases ++ [p] }

/-- No call could be over in no time at all. -/
def validate (c : Config) : Except Error Unit :=
  if c.timeout = ⟨0⟩ then .error .zeroTimeout else .ok ()

theorem validate_eq_ok_iff {c : Config} : c.validate = .ok () ↔ c.timeout ≠ ⟨0⟩ := by
  simp [validate]

theorem validate_eq_error_iff {c : Config} {e : Error} :
    c.validate = .error e ↔ c.timeout = ⟨0⟩ ∧ e = .zeroTimeout := by
  unfold validate
  split <;> simp_all [eq_comm]

def brief (c : Config) : String :=
  "SigningConfig \x7b timeout: " ++ c.timeout.text ++ ", passphrases: ["
    ++ ", ".intercalate (c.passphrases.map Passphrase.brief) ++ "] \x7d"

/-- The text of a signer that holds the configuration. -/
def signerBrief (c : Config) : String := "SigningOrchestrator \x7b config: " ++ c.brief ++ " \x7d"

end Config

end Notary
