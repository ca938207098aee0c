import Notary.Json
import Notary.Hex

/-! Reading JSON from characters. A reader takes what it needs off the front and hands back the
rest. -/

namespace Notary.Json

def isBlank (c : Char) : Bool := c = ' ' || c = '\t' || c = '\n' || c = '\r'

def skip (cs : List Char) : List Char := cs.dropWhile isBlank

def readUnit? (a b c d : Char) : Option UInt16 := do
  let a ← Hex.value? a
  let b ← Hex.value? b
  let c ← Hex.value? c
  let d ← Hex.value? d
  return UInt16.ofNat (a * 0x1000 + b * 0x100 + c * 0x10 + d)

def shortEscape? : Char → Option UInt16
  | '"' => some 0x22
  | '\\' => some 0x5C
  | '/' => some 0x2F
  | 'b' => some 0x08
  | 'f' => some 0x0C
  | 'n' => some 0x0A
  | 'r' => some 0x0D
  | 't' => some 0x09
  | _ => none

/-- The pieces up to the closing quote. -/
def readPieces? : List Char → Option (List Piece × List Char)
  | '"' :: rest => some ([], rest)
  | '\\' :: 'u' :: a :: b :: c :: d :: rest => do
    let u ← readUnit? a b c d
    let (ps, rest) ← readPieces? rest
    return (.escaped u :: ps, rest)
  | '\\' :: c :: rest => do
    let u ← shortEscape? c
    let (ps, rest) ← readPieces? rest
    return (.escaped u :: ps, rest)
  | c :: rest => do
    if c = '\\' then none
    let (ps, rest) ← readPieces? rest
    return (.plain c :: ps, rest)
  | [] => none

/-- All digits at the front, of which there is at least one. -/
def readDigits? (cs : List Char) : Option (List Char × List Char) :=
  match cs.takeWhile Char.isDigit with
  | [] => none
  | ds => some (ds, cs.dropWhile Char.isDigit)

/-- A number does not begin with an idle zero. -/
def readWhole? (cs : List Char) : Option (Nat × List Char) :=
  match readDigits? cs with
  | some (['0'], rest) => some (0, rest)
  | some ('0' :: _, _) => none
  | some (ds, rest) => some (Nat.ofDigitChars 10 ds 0, rest)
  | none => none

def readFraction? : List Char → Option (List Char × List Char)
  | '.' :: cs => readDigits? cs
  | cs => some ([], cs)

def readMagnitude? (cs : List Char) : Option (Nat × List Char) :=
  (readDigits? cs).map fun (ds, rest) => (Nat.ofDigitChars 10 ds 0, rest)

def readSigned? : List Char → Option (Int × List Char)
  | '-' :: cs => (readMagnitude? cs).map fun (n, rest) => (-(n : Int), rest)
  | '+' :: cs => (readMagnitude? cs).map fun (n, rest) => ((n : Int), rest)
  | cs => (readMagnitude? cs).map fun (n, rest) => ((n : Int), rest)

def readExponent? : List Char → Option (Option Int × List Char)
  | 'e' :: cs | 'E' :: cs => (readSigned? cs).map fun (n, rest) => (some n, rest)
  | cs => some (none, cs)

def readUnsigned? (negative : Bool) (cs : List Char) : Option (Numeral × List Char) := do
  let (whole, cs) ← readWhole? cs
  let (fraction, cs) ← readFraction? cs
  let (exponent, cs) ← readExponent? cs
  return (⟨negative, whole, fraction, exponent⟩, cs)

def readNumeral? : List Char → Option (Numeral × List Char)
  | '-' :: cs => readUnsigned? true cs
  | cs => readUnsigned? false cs

mutual

/-- A value after any blanks. The count bounds how many readers stand within each other. -/
def readValue? : Nat → List Char → Option (Json × List Char)
  | 0, _ => none
  | n + 1, cs =>
    match skip cs with
    | 'n' :: 'u' :: 'l' :: 'l' :: rest => some (null, rest)
    | 't' :: 'r' :: 'u' :: 'e' :: rest => some (bool true, rest)
    | 'f' :: 'a' :: 'l' :: 's' :: 'e' :: rest => some (bool false, rest)
    | '"' :: rest => (readPieces? rest).map fun (ps, rest) => (string ps, rest)
    | '[' :: rest =>
      match skip rest with
      | ']' :: rest => some (array [], rest)
      | _ => (readElements? n rest).map fun (js, rest) => (array js, rest)
    | '{' :: rest =>
      match skip rest with
      | '}' :: rest => some (object [], rest)
      | _ => (readMembers? n rest).map fun (ms, rest) => (object ms, rest)
    | cs => (readNumeral? cs).map fun (m, rest) => (number m, rest)

/-- One element or more, and the closing bracket. -/
def readElements? : Nat → List Char → Option (List Json × List Char)
  | 0, _ => none
  | n + 1, cs => do
    let (j, rest) ← readValue? n cs
    match skip rest with
    | ']' :: rest => some ([j], rest)
    | ',' :: rest =>
      let (js, rest) ← readElements? n rest
      return (j :: js, rest)
    | _ => none

/-- One member or more, and the closing brace. -/
def readMembers? : Nat → List Char → Option (List (List Piece × Json) × List Char)
  | 0, _ => none
  | n + 1, cs =>
    match skip cs with
    | '"' :: rest => do
      let (key, rest) ← readPieces? rest
      match skip rest with
      | ':' :: rest =>
        let (j, rest) ← readValue? n rest
        match skip rest with
        | '}' :: rest => some ([(key, j)], rest)
        | ',' :: rest =>
          let (ms, rest) ← readMembers? n rest
          return ((key, j) :: ms, rest)
        | _ => none
      | _ => none
    | _ => none

end

/-- The whole text must be one value, with blanks around it. -/
def parse? (s : String) : Option Json :=
  let cs := s.toList
  match readValue? (2 * cs.length + 2) cs with
  | some (j, rest) => if skip rest = [] then some j else none
  | none => none

end Notary.Json
