import SmallLisp.Number.Decimal

/-!
# SmallLisp.Number.Shortest

The shortest decimal that reads back as a given double. For 1, 2, … 17 digits the two neighbours
of the value on the grid of that many digits are tried: the first grid with a neighbour that reads
back wins, of two such neighbours the nearer one, of two equally near ones the even one. Reading
back is tested by reading, so the answer reads back by construction.
-/

namespace SmallLisp
namespace Number

def digitCount (n : Nat) : Nat :=
  (Nat.toDigits 10 n).length

/-- The exponent `k` with `10 ^ (k - 1) ≤ num / den < 10 ^ k`, for a positive ratio. -/
def decimalExponent (num den : Nat) : Int :=
  if den ≤ num then (digitCount (num / den) : Int)
  else 1 - (digitCount ((den + num - 1) / num - 1) : Int)

def dyadicRatio (mantissa : Nat) (exponent : Int) : Nat × Nat :=
  (mantissa * Nat.pow 2 exponent.toNat, Nat.pow 2 (-exponent).toNat)

/-- Of the neighbours of `num / den` on the grid `10 ^ e`, the one that reads back as `x`. -/
def neighbour? (x : Float) (negative : Bool) (num den : Nat) (e : Int) : Option Decimal :=
  let num' := num * Nat.pow 10 (-e).toNat
  let den' := den * Nat.pow 10 e.toNat
  let low := num' / den'
  let rest := num' % den'
  let below : Decimal := Decimal.normalize ⟨negative, low, e⟩
  let above : Decimal := Decimal.normalize ⟨negative, low + 1, e⟩
  if below.toFloat = x then
    if above.toFloat = x && (den' < 2 * rest || (den' == 2 * rest && low % 2 == 1)) then some above
    else some below
  else if above.toFloat = x then some above
  else none

/-- The decimal that a finite double is exactly. -/
def exactDecimal (negative : Bool) (mantissa : Nat) (exponent : Int) : Decimal :=
  if 0 ≤ exponent then Decimal.normalize ⟨negative, mantissa * Nat.pow 2 exponent.toNat, 0⟩
  else Decimal.normalize ⟨negative, mantissa * Nat.pow 5 (-exponent).toNat, exponent⟩

/-- The shortest decimal that reads back as `x`, where `x` is the finite double with the given
parts. Seventeen digits suffice for every double, so the exact decimal is a last resort only. -/
def shortest (x : Float) (negative : Bool) (mantissa : Nat) (exponent : Int) : Decimal :=
  if mantissa = 0 then ⟨negative, 0, 0⟩
  else
    let (num, den) := dyadicRatio mantissa exponent
    let k := decimalExponent num den
    let found := (List.range 17).findSome? fun n =>
      neighbour? x negative num den (k - (n + 1 : Nat))
    found.getD (exactDecimal negative mantissa exponent)

end Number
end SmallLisp
