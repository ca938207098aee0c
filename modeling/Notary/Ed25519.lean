import Notary.Block
import Notary.Edwards
import Notary.Sha2

/-! Ed25519 keys, signatures and their verification. A signature is refused when its scalar is
not below the order, and otherwise unless its point equals the recomputed one byte for byte. -/

namespace Notary

namespace Ed25519
open Edwards

def hashToScalar (bs : List UInt8) : Nat := ofLittleEndian (sha512 bs).toList % order

/-- The secret scalar: the low three bits cleared, the highest of 255 set. -/
def clamp (bs : List UInt8) : Nat := 1 <<< 254 + ofLittleEndian bs % (1 <<< 254) / 8 * 8

inductive Fault
  | unreducedScalar
  | mismatch
deriving DecidableEq, Repr

def Fault.message : Fault → String
  | unreducedScalar => "Cannot use scalar with high-bit set"
  | mismatch => "Verification equation was not satisfied"

end Ed25519

open Ed25519 Edwards

structure PublicKey where
  octets : Octets 32
  point : Point
deriving DecidableEq

namespace PublicKey

/-- Keeps the bytes as given, also where they do not name `y` by its least value. -/
def ofOctets? (o : Octets 32) : Option PublicKey := (Point.ofOctets? o).map fun p => ⟨o, p⟩

def bytes (k : PublicKey) : List UInt8 := k.octets.toList

def brief (k : PublicKey) : String := "PublicKey(" ++ Hex.text (k.bytes.take 8) ++ ")"

def verify (k : PublicKey) (message : List UInt8) (s : Signature) : Except Fault Unit :=
  let r := s.bytes.take 32
  let scalar := ofLittleEndian (s.bytes.drop 32)
  if order ≤ scalar then .error .unreducedScalar
  else
    let h := hashToScalar (r ++ k.bytes ++ message)
    let expected := (Point.base.scale scalar).add (k.point.neg.scale h)
    if expected.octets.toList = r then .ok () else .error .mismatch

end PublicKey

structure Keypair where
  seed : Octets 32
deriving DecidableEq, Repr

namespace Keypair

def secret (k : Keypair) : Nat := clamp ((sha512 k.seed.toList).toList.take 32)

def publicKey (k : Keypair) : PublicKey :=
  let p := Point.base.scale k.secret
  ⟨p.octets, p⟩

def brief (k : Keypair) : String :=
  "Keypair \x7b public_key: " ++ k.publicKey.brief ++ ", .. \x7d"

def sign (k : Keypair) (message : List UInt8) : Signature :=
  let r := hashToScalar ((sha512 k.seed.toList).toList.drop 32 ++ message)
  let point := (Point.base.scale r).octets.toList
  let h := hashToScalar (point ++ k.publicKey.bytes ++ message)
  ⟨.padded 64 (point ++ littleEndian 32 ((r + h * k.secret) % order))⟩

end Keypair

namespace Signature

def verifies (s : Signature) (digest : Digest) (k : PublicKey) : Bool :=
  (k.verify digest.bytes s).isOk

end Signature

end Notary
