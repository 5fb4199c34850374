/-
Which written numbers are within the doubles.

A double has 53 significant bits, and all of them are below 2 ^ 1024.  A number is
rounded to the nearest one, to the even one of two; it is beyond the doubles
if it reaches the half of the last step below that power.
-/

import VirtualHosts.Text

namespace VirtualHosts.Double

def infinity : Nat :=
  Nat.pow 2 1024 - Nat.pow 2 970

def isFinite (digits : Nat) (exponent : Int) : Bool :=
  let length : Int := (Nat.toDigits 10 digits).length
  digits == 0 || length + exponent ≤ 308 ||
    (length + exponent ≤ 309 &&
      (if 0 ≤ exponent then
        decide (digits * Nat.pow 10 exponent.toNat < infinity)
      else
        decide (digits < infinity * Nat.pow 10 (-exponent).toNat)))

/-- The multiple of `step` nearest to a number; of two the even multiple. -/
def roundTo (step n : Nat) : Nat :=
  let below := n / step
  let double := 2 * (n % step)
  let up := step < double || (double == step && below % 2 == 1)
  (if up then below + 1 else below) * step

def nearest (n : Nat) : Nat :=
  roundTo (Nat.pow 2 (n.log2 - 52)) n

/-- The number that digits continue, up to the first that would take it beyond 64
bits, and the digits from there. -/
def fitting (size : Nat) : List Char → Nat × List Char
  | [] => (size, [])
  | digit :: digits =>
      let next := size * 10 + (digit.toNat - '0'.toNat)
      if next < Nat.pow 2 64 then fitting next digits else (size, digit :: digits)

/-- Whether a number is finite that is read in two steps: the digits that fit into
64 bits are rounded, and the result is scaled by a rounded power of ten.  Other
digits of the whole part only scale, and other digits of the fraction are ignored. -/
def isFiniteInSteps (whole fraction : List Char) (exponent : Int) : Bool :=
  let (size, scaling) := fitting 0 whole
  let (size, ignored) := fitting size fraction
  let exponent := exponent + scaling.length - (fraction.length - ignored.length)
  size == 0 || exponent ≤ 0 ||
    (exponent ≤ 308 && nearest size * nearest (Nat.pow 10 exponent.toNat) < infinity)

end VirtualHosts.Double
