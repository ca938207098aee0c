/-! Lengths of time in whole nanoseconds. A duration is written in the largest unit that leaves
at least one whole, with the exact fraction and no trailing zeros. -/

namespace Notary

structure Duration where
  nanoseconds : Nat
deriving DecidableEq, Repr

namespace Duration

def ofMilliseconds (n : Nat) : Duration := ⟨n * 1000000⟩

def ofSeconds (n : Nat) : Duration := ⟨n * 1000000000⟩

/-- Rounded up. -/
def milliseconds (d : Duration) : Nat := (d.nanoseconds + 999999) / 1000000

theorem milliseconds_le_iff {d : Duration} {n : Nat} :
    d.milliseconds ≤ n ↔ d.nanoseconds ≤ (ofMilliseconds n).nanoseconds := by
  simp only [milliseconds, ofMilliseconds]
  omega

/-- The last `k` decimal digits of `n`. -/
def lastDigits : Nat → Nat → List Char
  | 0, _ => []
  | k + 1, n => lastDigits k (n / 10) ++ [Nat.digitChar (n % 10)]

/-- What follows the whole part, of which `places` digits count. -/
def fraction (places n : Nat) : List Char :=
  match ((lastDigits places n).reverse.dropWhile (· == '0')).reverse with
  | [] => []
  | ds => '.' :: ds

def decimal (n one places : Nat) (unit : String) : String :=
  toString (n / one) ++ String.ofList (fraction places n) ++ unit

def text (d : Duration) : String :=
  let n := d.nanoseconds
  if 1000000000 ≤ n then decimal n 1000000000 9 "s"
  else if 1000000 ≤ n then decimal n 1000000 6 "ms"
  else if 1000 ≤ n then decimal n 1000 3 "µs"
  else decimal n 1 0 "ns"

end Duration

end Notary
