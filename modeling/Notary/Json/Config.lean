import Notary.Config
import Notary.Json.Reader

/-! Configurations in JSON: an object of a timeout in milliseconds and a list of passphrases, or
an array of the two. Unknown and repeated members are refused. -/

namespace Notary.Config

/-- The timeout may be null, which stands for none. -/
def readTimeout? : Json → Option (Option Nat)
  | .null => some none
  | j => do
    let n ← j.natural?
    if n < UInt64.size then some (some n) else none

def readPassphrases? : Json → Option (List String)
  | .array elements => elements.mapM Json.string?
  | _ => none

/-- What has been read of an object so far. -/
structure Draft where
  timeout : Option (Option Nat)
  passphrases : Option (List String)
deriving DecidableEq, Repr

def Draft.addMember? (d : Draft) (m : List Json.Piece × Json) : Option Draft := do
  match ← Json.text? m.1, d with
  | "timeout_ms", ⟨none, _⟩ => return { d with timeout := some (← readTimeout? m.2) }
  | "passphrases", ⟨_, none⟩ => return { d with passphrases := some (← readPassphrases? m.2) }
  | _, _ => none

def readDraft? : Json → Option Draft
  | .object members => members.foldlM Draft.addMember? ⟨none, none⟩
  | .array [t] => do return ⟨some (← readTimeout? t), none⟩
  | .array [t, ps] => do return ⟨some (← readTimeout? t), some (← readPassphrases? ps)⟩
  | _ => none

def Draft.config (d : Draft) : Config where
  timeout := match d.timeout.join with
    | some ms => .ofMilliseconds ms
    | none => standardTimeout
  passphrases := (d.passphrases.getD []).map .ofText

def ofJson (text : String) : Except Error Config :=
  match (Json.parse? text).bind readDraft? with
  | none => .error .malformedConfig
  | some d => do
    d.config.validate
    return d.config

end Notary.Config
