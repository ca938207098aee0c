/-! The optional abilities of an account, and sets of them. -/

namespace Notary

inductive Capability
  | locker
  | protectingSigner
  | signer
deriving DecidableEq, Repr

namespace Capability

def all : List Capability := [locker, protectingSigner, signer]

def label : Capability → String
  | locker => "unlocking"
  | protectingSigner => "protected signing"
  | signer => "signing"

def title : Capability → String
  | locker => "Locker"
  | protectingSigner => "ProtectingSigner"
  | signer => "Signer"

end Capability

structure Capabilities where
  locker : Bool
  protectingSigner : Bool
  signer : Bool
deriving DecidableEq, Repr

namespace Capabilities

def empty : Capabilities := ⟨false, false, false⟩

def insert (s : Capabilities) : Capability → Capabilities
  | .locker => { s with locker := true }
  | .protectingSigner => { s with protectingSigner := true }
  | .signer => { s with signer := true }

def contains (s : Capabilities) : Capability → Bool
  | .locker => s.locker
  | .protectingSigner => s.protectingSigner
  | .signer => s.signer

def toList (s : Capabilities) : List Capability := Capability.all.filter s.contains

def text (s : Capabilities) : String :=
  "\x7b" ++ ", ".intercalate (s.toList.map Capability.title) ++ "\x7d"

end Capabilities

end Notary
