import SmallLisp.Number.Double

/-!
# SmallLisp.Number.Nearest

The double nearest to a ratio of natural numbers, in exact arithmetic. The ratio is measured in
units in the last place and rounded to a whole number of them, a half to the even neighbour; the
magnitude codes being consecutive, a carry into the next binary exponent needs no special case.
-/

namespace SmallLisp
namespace Number

/-- A quotient rounded to the nearest natural number, a half to the even one. -/
def roundDiv (num den : Nat) : Nat :=
  let q := num / den
  let r := num % den
  if den < 2 * r || (den == 2 * r && q % 2 == 1) then q + 1 else q

def atLeastPowerOfTwo (num den : Nat) (e : Int) : Bool :=
  if 0 ≤ e then den * Nat.pow 2 e.toNat ≤ num else den ≤ num * Nat.pow 2 (-e).toNat

/-- The exponent of the greatest power of two that is at most `num / den`. -/
def binaryExponent (num den : Nat) : Int :=
  let e : Int := (num.log2 : Int) - (den.log2 : Int)
  if atLeastPowerOfTwo num den e then e else e - 1

/-- The magnitude code of the double nearest to `num / den`. -/
def nearestCode (num den : Nat) : Nat :=
  if num = 0 then 0 else
  let q := max (binaryExponent num den - 52) minExponent
  let units := roundDiv (num * Nat.pow 2 (-q).toNat) (den * Nat.pow 2 q.toNat)
  min ((q - minExponent).toNat * fractionCount + units) infinityCode

/-- The double nearest to `± num / den`; from halfway above the greatest finite double on, an
infinity. -/
def nearest (negative : Bool) (num den : Nat) : Float :=
  ofCode negative (nearestCode num den)

end Number
end SmallLisp
