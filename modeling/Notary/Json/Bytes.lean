import Notary.AccountId
import Notary.Digest
import Notary.Json.Reader

/-! Blocks, signatures and account identifiers in JSON. Blocks and signatures are written as
arrays of numbers; a signature is read from a string as well, whose bytes then count. -/

namespace Notary

namespace Block
variable {p : Part}

def json (b : Block p) : Json := .ofBytes b.bytes

def ofJson? (p : Part) (j : Json) : Option (Block p) := do ofBytes? p (← j.byteArray?)

end Block

namespace SigningContainer

def json (c : SigningContainer) : Json :=
  let key (s : String) := s.toList.map Json.Piece.plain
  .object [(key "root", c.root.json), (key "domain", c.domain.json)]

end SigningContainer

namespace Signature

def json (s : Signature) : Json := .ofBytes s.bytes

def ofJson? : Json → Option Signature
  | .string ps => ofBytes? (Json.rawBytes ps)
  | j => do ofBytes? (← j.byteArray?)

theorem ofJson?_json (s : Signature) : ofJson? s.json = some s := by
  have h : ofJson? s.json = (Json.ofBytes s.bytes).byteArray?.bind ofBytes? := rfl
  rw [h, Json.byteArray?_ofBytes, Option.bind_some, ofBytes?_bytes]

end Signature

namespace AccountId

def json (a : AccountId) : Json := .ofText a.text

def ofJson? (j : Json) : Option AccountId := do read? (← j.string?)

end AccountId

end Notary
