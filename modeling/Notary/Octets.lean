/-! Byte strings whose width is part of their type, numbers as bytes, and the cutting of a
byte string into pieces. -/

namespace Notary

abbrev Octets (n : Nat) := Vector UInt8 n

namespace Octets

def ofList? (n : Nat) (bs : List UInt8) : Option (Octets n) :=
  if h : bs.length = n then some ⟨bs.toArray, by simpa using h⟩ else none

/-- Zeros fill what `bs` leaves open; what exceeds the width is cut off. -/
def padded (n : Nat) (bs : List UInt8) : Octets n :=
  .ofFn fun i => bs.getD i 0

def zero (n : Nat) : Octets n := .replicate n 0

theorem getElem_padded {n i : Nat} (bs : List UInt8) (hi : i < n) :
    (padded n bs)[i] = bs.getD i 0 := by
  simp [padded]

theorem padded_toList {n : Nat} (o : Octets n) : padded n o.toList = o := by
  apply Vector.ext
  intro i hi
  have hl : i < o.toList.length := by
    rw [Vector.length_toList]
    exact hi
  rw [getElem_padded, List.getD_eq_getElem?_getD, List.getElem?_eq_getElem hl, Option.getD_some,
    Vector.getElem_toList]

theorem ofList?_eq_some_iff {n : Nat} {bs : List UInt8} {o : Octets n} :
    ofList? n bs = some o ↔ o.toList = bs := by
  unfold ofList?
  split
  · rename_i h
    constructor
    · rintro ⟨⟩
      simp
    · rintro rfl
      exact congrArg some (Vector.toArray_inj.1 Array.toArray_toList)
  · rename_i h
    simp only [reduceCtorEq, false_iff]
    rintro rfl
    simp at h

theorem ofList?_toList {n : Nat} (o : Octets n) : ofList? n o.toList = some o :=
  ofList?_eq_some_iff.2 rfl

theorem ofList?_eq_none_iff {n : Nat} {bs : List UInt8} :
    ofList? n bs = none ↔ bs.length ≠ n := by
  simp [ofList?]

def lexLe : List UInt8 → List UInt8 → Bool
  | [], _ => true
  | _ :: _, [] => false
  | a :: as, b :: bs => a < b || (a == b && lexLe as bs)

/-- Byte strings in ascending order, compared byte by byte from the front. -/
def sort {n : Nat} (os : List (Octets n)) : List (Octets n) :=
  os.mergeSort fun a b => lexLe a.toList b.toList

end Octets

def littleEndian : Nat → Nat → List UInt8
  | 0, _ => []
  | k + 1, n => UInt8.ofNat n :: littleEndian k (n / 256)

def bigEndian (k n : Nat) : List UInt8 := (littleEndian k n).reverse

def ofLittleEndian : List UInt8 → Nat
  | [] => 0
  | b :: bs => b.toNat + 256 * ofLittleEndian bs

def ofBigEndian (bs : List UInt8) : Nat := ofLittleEndian bs.reverse

@[simp] theorem length_littleEndian (k n : Nat) : (littleEndian k n).length = k := by
  induction k generalizing n with
  | zero => rfl
  | succ k ih => simp [littleEndian, ih]

@[simp] theorem length_bigEndian (k n : Nat) : (bigEndian k n).length = k := by
  simp [bigEndian]

theorem ofLittleEndian_littleEndian (k n : Nat) :
    ofLittleEndian (littleEndian k n) = n % (1 <<< (8 * k)) := by
  rw [Nat.one_shiftLeft, Nat.pow_mul]
  induction k generalizing n with
  | zero => simp [littleEndian, ofLittleEndian, Nat.mod_one]
  | succ k ih =>
    simp only [littleEndian, ofLittleEndian, ih, UInt8.toNat_ofNat', Nat.reducePow]
    rw [Nat.pow_succ', Nat.mod_mul]

/-- Pieces of `n` elements each, the last one perhaps shorter. -/
def cut {α : Type} (n : Nat) (xs : List α) : List (List α) :=
  go xs.length xs
where
  go : Nat → List α → List (List α)
    | 0, _ => []
    | _ + 1, [] => []
    | fuel + 1, x :: rest => (x :: rest).take n :: go fuel ((x :: rest).drop n)

end Notary
