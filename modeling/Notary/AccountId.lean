import Notary.Payload
import Notary.Hex

/-! Account identifiers: sixteen bytes, written as 32 hexadecimal digits in five groups. They are
read in that form, also within braces or after the name space, and without the hyphens. -/

namespace Notary

structure AccountId where
  octets : Octets 16
deriving DecidableEq, Repr

namespace AccountId

def groups : List Nat := [4, 2, 2, 2, 6]

def hyphenated : List Nat → List UInt8 → List Char
  | [], _ => []
  | [n], bs => Hex.encode (bs.take n)
  | n :: ns, bs => Hex.encode (bs.take n) ++ '-' :: hyphenated ns (bs.drop n)

def text (a : AccountId) : String := String.ofList (hyphenated groups a.octets.toList)

def brief (a : AccountId) : String := "AccountId(" ++ a.text ++ ")"

/-- Takes `n` bytes off the front, and a hyphen after them if more groups follow. -/
def readGroups? : List Nat → List Char → Option (List UInt8)
  | [], cs => if cs = [] then some [] else none
  | [n], cs => if cs.length = 2 * n then Hex.decode? cs else none
  | n :: ns, cs =>
    match cs.drop (2 * n) with
    | '-' :: rest => do
      let front ← Hex.decode? (cs.take (2 * n))
      let back ← readGroups? ns rest
      return front ++ back
    | _ => none

/-- In either case, letter by letter. -/
def isNameSpace (cs : List Char) : Bool := cs.map Char.toLower == "urn:uuid:".toList

def readBytes? (cs : List Char) : Option (List UInt8) :=
  if cs.length = 32 then Hex.decode? cs
  else if cs.length = 36 then readGroups? groups cs
  else if cs.length = 38 then
    if cs.head? = some '{' ∧ cs.getLast? = some '}' then readGroups? groups (cs.drop 1).dropLast
    else none
  else if cs.length = 45 ∧ isNameSpace (cs.take 9) then readGroups? groups (cs.drop 9)
  else none

def read? (s : String) : Option AccountId := do
  let bs ← readBytes? s.toList
  return ⟨← Octets.ofList? 16 bs⟩

/-- The identifier drawn from sixteen random bytes: version 4 of the RFC 9562 variant. -/
def ofRandom (o : Octets 16) : AccountId :=
  ⟨(o.set 6 (UInt8.ofNat (0x40 + o[6].toNat % 0x10))).set 8
    (UInt8.ofNat (0x80 + o[8].toNat % 0x40))⟩

def version (a : AccountId) : Nat := a.octets[6].toNat / 16

def payload (a : AccountId) : Payload := .text a.text

end AccountId

end Notary
