/-! JSON values as they are written. A string is kept piece by piece, because what it stands for
depends on the pieces: escapes may give half of a surrogate pair, and a control character must be
escaped where text is asked for but may stand as it is where bytes are. -/

namespace Notary

/-- One element of a string: a character that stands for itself, or a 16-bit unit that an escape
gives. -/
inductive Json.Piece
  | plain (c : Char)
  | escaped (u : UInt16)
deriving DecidableEq, Repr

/-- A number as written, `-12.50e3` for instance. No digits after the point means no point. -/
structure Json.Numeral where
  negative : Bool
  whole : Nat
  fraction : List Char
  exponent : Option Int
deriving DecidableEq, Repr

inductive Json
  | null
  | bool (b : Bool)
  | number (n : Json.Numeral)
  | string (ps : List Json.Piece)
  | array (elements : List Json)
  | object (members : List (List Json.Piece × Json))
deriving Repr

namespace Json

/-! What strings stand for. -/

def isLead (u : UInt16) : Bool := 0xD800 ≤ u && u ≤ 0xDBFF

def isTrail (u : UInt16) : Bool := 0xDC00 ≤ u && u ≤ 0xDFFF

def pair (lead trail : UInt16) : Char :=
  Char.ofNat (0x10000 + (lead.toNat - 0xD800) * 0x400 + (trail.toNat - 0xDC00))

/-- A character, or a surrogate that stands alone. -/
inductive Code
  | scalar (c : Char)
  | surrogate (u : UInt16)
deriving DecidableEq, Repr

namespace Piece

def isControl : Piece → Bool
  | plain c => c < ' '
  | escaped _ => false

/-- Joins the piece to what follows it: a lead takes up a trail right behind it. -/
def code (p : Piece) (rest : List Code) : List Code :=
  match p with
  | plain c => .scalar c :: rest
  | escaped u =>
    if isLead u then
      match rest with
      | .surrogate v :: more => if isTrail v then .scalar (pair u v) :: more else .surrogate u :: rest
      | _ => .surrogate u :: rest
    else if isTrail u then .surrogate u :: rest
    else .scalar (Char.ofNat u.toNat) :: rest

end Piece

def codes (ps : List Piece) : List Code := ps.foldr Piece.code []

namespace Code

def scalar? : Code → Option Char
  | scalar c => some c
  | surrogate _ => none

/-- UTF-8, extended to surrogates as three bytes each. -/
def bytes : Code → List UInt8
  | scalar c => String.utf8EncodeChar c
  | surrogate u =>
    [UInt8.ofNat (0xE0 + u.toNat / 0x1000), UInt8.ofNat (0x80 + u.toNat / 0x40 % 0x40),
      UInt8.ofNat (0x80 + u.toNat % 0x40)]

end Code

/-- The text of a string that has no bare control characters and no lone surrogates. -/
def text? (ps : List Piece) : Option String :=
  if ps.any Piece.isControl then none
  else ((codes ps).mapM Code.scalar?).map String.ofList

def rawBytes (ps : List Piece) : List UInt8 := (codes ps).flatMap Code.bytes

def ofText (s : String) : Json :=
  string (s.toList.map fun c =>
    if c < ' ' ∨ c = '"' ∨ c = '\\' then .escaped (UInt16.ofNat c.toNat) else .plain c)

/-! Readings of values. -/

def ofNat (n : Nat) : Json := number ⟨false, n, [], none⟩

/-- Numbers that are written with digits alone. -/
def natural? : Json → Option Nat
  | number ⟨false, n, [], none⟩ => some n
  | _ => none

def string? : Json → Option String
  | string ps => text? ps
  | _ => none

def byte? (j : Json) : Option UInt8 := do
  let n ← j.natural?
  if n < 256 then some (UInt8.ofNat n) else none

def byteArray? : Json → Option (List UInt8)
  | array elements => elements.mapM byte?
  | _ => none

def ofBytes (bs : List UInt8) : Json := array (bs.map fun b => ofNat b.toNat)

theorem byte?_ofNat {n : Nat} (h : n < 256) : (ofNat n).byte? = some (UInt8.ofNat n) := by
  simp only [byte?, natural?, ofNat, Option.bind_eq_bind, Option.bind_some, if_pos h]

theorem byteArray?_ofBytes (bs : List UInt8) : (ofBytes bs).byteArray? = some bs := by
  induction bs with
  | nil => rfl
  | cons b bs ih =>
    simp only [ofBytes, byteArray?, List.map_cons, List.mapM_cons] at ih ⊢
    rw [byte?_ofNat b.toNat_lt, ih, UInt8.ofNat_toNat]
    rfl

/-! Writing, without blanks. -/

def hexUnit (u : UInt16) : List Char :=
  [12, 8, 4, 0].map fun k => Nat.digitChar ((u.toNat >>> k) % 16)

def Piece.written : Piece → List Char
  | plain c => [c]
  | escaped u => '\\' :: 'u' :: hexUnit u

def quoted (ps : List Piece) : List Char := '"' :: ps.flatMap Piece.written ++ ['"']

def Numeral.written (n : Numeral) : List Char :=
  let sign (negative : Bool) : List Char := if negative then ['-'] else []
  let point : List Char := if n.fraction = [] then [] else '.' :: n.fraction
  let power : List Char := match n.exponent with
    | none => []
    | some e => 'e' :: sign (e < 0) ++ Nat.toDigits 10 e.natAbs
  sign n.negative ++ Nat.toDigits 10 n.whole ++ point ++ power

mutual

def written : Json → List Char
  | null => "null".toList
  | bool b => (if b then "true" else "false").toList
  | number n => n.written
  | string ps => quoted ps
  | array elements => '[' :: writtenElements elements ++ [']']
  | object members => '{' :: writtenMembers members ++ ['}']

def writtenElements : List Json → List Char
  | [] => []
  | [j] => written j
  | j :: k :: js => written j ++ ',' :: writtenElements (k :: js)

def writtenMembers : List (List Piece × Json) → List Char
  | [] => []
  | [m] => quoted m.1 ++ ':' :: written m.2
  | m :: n :: ms => quoted m.1 ++ ':' :: written m.2 ++ ',' :: writtenMembers (n :: ms)

end

def compact (j : Json) : String := String.ofList (written j)

end Json

end Notary
