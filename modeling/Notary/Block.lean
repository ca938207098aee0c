import Notary.Octets
import Notary.Hex

/-! The 32-byte blocks that signing is about, told apart by the part they play, and the
64-byte signature. -/

namespace Notary

inductive Part
  | root
  | domain
  | digest
deriving DecidableEq, Repr

namespace Part

def label : Part → String
  | root => "root"
  | domain => "domain"
  | digest => "digest"

def title : Part → String
  | root => "Root"
  | domain => "Domain"
  | digest => "Digest"

end Part

structure Block (p : Part) where
  octets : Octets 32
deriving DecidableEq, Repr

abbrev Root := Block .root
abbrev Domain := Block .domain
abbrev Digest := Block .digest

/-- Bytes in full, marked as hexadecimal. -/
def prefixedHex (bs : List UInt8) : String := "0x" ++ Hex.text bs

namespace Block
variable {p : Part}

def bytes (b : Block p) : List UInt8 := b.octets.toList

def ofBytes? (p : Part) (bs : List UInt8) : Option (Block p) :=
  (Octets.ofList? 32 bs).map Block.mk

def text (b : Block p) : String := prefixedHex b.bytes

/-- The first eight bytes under the block's title. -/
def brief (b : Block p) : String := p.title ++ "(" ++ Hex.text (b.bytes.take 8) ++ ")"

def sort (bs : List (Block p)) : List (Block p) :=
  (Octets.sort (bs.map octets)).map mk

theorem length_bytes (b : Block p) : b.bytes.length = 32 := by
  simp [bytes]

theorem ofBytes?_bytes (b : Block p) : ofBytes? p b.bytes = some b := by
  simp [ofBytes?, bytes, Octets.ofList?_toList]

theorem ofBytes?_eq_none_iff {bs : List UInt8} : ofBytes? p bs = none ↔ bs.length ≠ 32 := by
  simp [ofBytes?, Octets.ofList?_eq_none_iff]

end Block

structure Signature where
  octets : Octets 64
deriving DecidableEq, Repr

namespace Signature

def bytes (s : Signature) : List UInt8 := s.octets.toList

def ofBytes? (bs : List UInt8) : Option Signature :=
  (Octets.ofList? 64 bs).map Signature.mk

theorem ofBytes?_bytes (s : Signature) : ofBytes? s.bytes = some s := by
  simp [ofBytes?, bytes, Octets.ofList?_toList]

theorem ofBytes?_eq_none_iff {bs : List UInt8} : ofBytes? bs = none ↔ bs.length ≠ 64 := by
  simp [ofBytes?, Octets.ofList?_eq_none_iff]

def text (s : Signature) : String := prefixedHex s.bytes

def brief (s : Signature) : String := "Signature(" ++ Hex.text (s.bytes.take 8) ++ "...)"

end Signature

end Notary
