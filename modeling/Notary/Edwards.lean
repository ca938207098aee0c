import Notary.Octets

/-! The twisted Edwards curve `y² - x² = 1 + d x² y²` over the integers modulo `2²⁵⁵ - 19`, in
extended coordinates: a point stands for `(x / z, y / z)`, with `t = x y / z`. -/

namespace Notary.Edwards

def prime : Nat := 1 <<< 255 - 19

instance : @NeZero Nat Zero.ofOfNat0 prime := ⟨Nat.succ_ne_zero (1 <<< 255 - 20)⟩

abbrev Field := Fin prime

def bits (n : Nat) : List Bool := (List.range 256).map n.testBit

namespace Field

def square (x : Field) : Field := x * x

def power (x : Field) (n : Nat) : Field :=
  (bits n).foldr (fun b y => if b then y.square * x else y.square) 1

def inverse (x : Field) : Field := power x (prime - 2)

def odd (x : Field) : Bool := x.val % 2 == 1

/-- A square root of minus one. -/
def imaginary : Field := power 2 ((prime - 1) / 4)

/-- Some square root of `u / v`, if there is one. -/
def rootOfRatio? (u v : Field) : Option Field :=
  let r := u * power v 3 * power (u * power v 7) ((prime - 5) / 8)
  if v * r.square = u then some r
  else if v * r.square = -u then some (r * imaginary)
  else none

end Field

def d : Field := -(121665 * Field.inverse 121666)

structure Point where
  x : Field
  y : Field
  z : Field
  t : Field
deriving DecidableEq

namespace Point

def ofAffine (x y : Field) : Point := ⟨x, y, 1, x * y⟩

def zero : Point := ofAffine 0 1

/-- Complete: no pair of points on the curve is an exception. -/
def add (p q : Point) : Point :=
  let a := (p.y - p.x) * (q.y - q.x)
  let b := (p.y + p.x) * (q.y + q.x)
  let c := p.t * q.t * (2 * d)
  let e := p.z * q.z * 2
  ⟨(b - a) * (e - c), (e + c) * (b + a), (e - c) * (e + c), (b - a) * (b + a)⟩

def neg (p : Point) : Point := ⟨-p.x, p.y, p.z, -p.t⟩

def scale (n : Nat) (p : Point) : Point :=
  (bits n).foldr (fun b q => if b then (q.add q).add p else q.add q) zero

/-- The point with the given `y` whose `x` is odd as asked; a zero `x` counts as either. -/
def ofY? (y : Field) (odd : Bool) : Option Point := do
  let r ← Field.rootOfRatio? (y.square - 1) (d * y.square + 1)
  return ofAffine (if r.odd = odd then r else -r) y

/-- Reads `y` from the low 255 bits, which may exceed the prime, and the parity of `x` from the
last one. -/
def ofOctets? (o : Octets 32) : Option Point :=
  let n := ofLittleEndian o.toList
  ofY? (Fin.ofNat prime (n % (1 <<< 255))) (n >>> 255 == 1)

def octets (p : Point) : Octets 32 :=
  let r := p.z.inverse
  let parity := if (p.x * r).odd then 1 <<< 255 else 0
  .padded 32 (littleEndian 32 ((p.y * r).val + parity))

/-- The point with `y = 4 / 5` and even `x`. -/
def base : Point := (ofY? (4 * Field.inverse 5) false).getD zero

end Point

/-- The order of the base point, a prime. -/
def order : Nat := 1 <<< 252 + 27742317777372353535851937790883648493

end Notary.Edwards
