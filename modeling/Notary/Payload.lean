import Notary.Octets

/-! Structured payloads, by the kinds of value that a data format tells apart. -/

namespace Notary

/-- Widths of integers, in bytes. -/
inductive Width
  | one
  | two
  | four
  | eight
  | sixteen
deriving DecidableEq, Repr

def Width.bytes : Width → Nat
  | one => 1
  | two => 2
  | four => 4
  | eight => 8
  | sixteen => 16

/-- Values that collections pack side by side. A signed integer is held in two's complement. -/
inductive Basic
  | bool (b : Bool)
  | char (c : Char)
  | unsigned (w : Width) (n : BitVec (8 * w.bytes))
  | signed (w : Width) (n : BitVec (8 * w.bytes))
  | unitVariant (index : BitVec 32)
deriving DecidableEq, Repr

namespace Basic

def bytes : Basic → List UInt8
  | bool b => [if b then 1 else 0]
  | char c => littleEndian 4 c.toNat
  | unsigned w n => littleEndian w.bytes n.toNat
  | signed w n => littleEndian w.bytes n.toNat
  | unitVariant index => littleEndian 4 index.toNat

theorem length_bytes_le (b : Basic) : b.bytes.length ≤ 16 := by
  cases b with
  | unsigned w n => cases w <;> simp [bytes, Width.bytes]
  | signed w n => cases w <;> simp [bytes, Width.bytes]
  | _ => simp [bytes]

end Basic

inductive FloatWidth
  | single
  | double
deriving DecidableEq, Repr

/-- A value of any kind. A sequence may be announced with its length or not; of a float only the
width is kept; `failing` is a value that cannot be written at all. -/
inductive Payload
  | basic (b : Basic)
  | float (w : FloatWidth)
  | text (s : String)
  | bytes (bs : List UInt8)
  | absent
  | present (p : Payload)
  | unit
  | unitStruct
  | newtype (p : Payload)
  | newtypeVariant (p : Payload)
  | seq (announced : Bool) (ps : List Payload)
  | tuple (ps : List Payload)
  | tupleStruct (ps : List Payload)
  | tupleVariant (ps : List Payload)
  | struct (fields : List Payload)
  | structVariant (fields : List Payload)
  | map (entries : List (Payload × Payload))
  | failing (message : String)
deriving Repr

namespace Payload

def byte (b : UInt8) : Payload := basic (.unsigned .one b.toBitVec)

/-- A struct of which some fields may be left out when it is written. -/
def ofFields (fields : List (Option Payload)) : Payload := struct (fields.filterMap id)

/-- Bytes of a fixed number, as a tuple of integers under a type of their own. -/
def ofOctets {n : Nat} (o : Octets n) : Payload := newtype (tuple (o.toList.map byte))

end Payload

end Notary
