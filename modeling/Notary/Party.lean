import Notary.Scripted
import Notary.Vault

/-! The accounts that a scenario can have, as one kind of account. -/

namespace Notary

/-- A bare account offers nothing and answers no call. -/
inductive Party
  | vault (v : Vault)
  | scripted (s : Scripted)
  | bare (name : String) (keypair : Option Keypair)

def Attempt.map {σ τ β : Type} (f : σ → τ) (a : Attempt σ β) : Attempt τ β :=
  ⟨a.early, f a.during, a.wait, a.late, f a.after, a.result⟩

namespace Party

instance : Account Party where
  name
    | vault v => Account.name v
    | scripted s => Account.name s
    | bare name _ => name
  publicKey
    | vault v => Account.publicKey v
    | scripted s => Account.publicKey s
    | bare _ keypair => keypair.map Keypair.publicKey
  compositeKey
    | vault v => Account.compositeKey v
    | scripted s => Account.compositeKey s
    | bare _ _ => none
  offers c
    | vault v => (Account.offers c v).map id vault
    | scripted s => (Account.offers c s).map id scripted
    | p@(bare _ _) => (false, p)
  attempt r
    | vault v => (Account.attempt r v).map vault
    | scripted s => (Account.attempt r s).map scripted
    | p@(bare _ _) => ⟨[], p, .endless, [], p, .error .locked⟩

def unlocked? : Party → Option Bool
  | vault v => some v.unlocked
  | scripted s => some s.unlocked
  | bare _ _ => none

/-- Whether the calls made to the account are told. -/
def tellsCalls : Party → Bool
  | scripted _ => true
  | _ => false

end Party

end Notary
