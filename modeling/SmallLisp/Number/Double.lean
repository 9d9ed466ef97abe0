/-!
# SmallLisp.Number.Double

The parts of a double. Without its sign bit the encoding of a double is a natural number, its
*magnitude code*: the codes below `infinityCode` number the finite magnitudes in ascending order,
`infinityCode` is infinity, and the codes above it are no number.
-/

namespace SmallLisp
namespace Number

/-- What a double stands for: the number `± mantissa · 2 ^ exponent`, an infinity, or no number. -/
inductive Parts where
  | finite (negative : Bool) (mantissa : Nat) (exponent : Int)
  | infinite (negative : Bool)
  | nan
deriving DecidableEq, Repr

def signPlace : Nat := Nat.pow 2 63

/-- How many magnitudes share one binary exponent. -/
def fractionCount : Nat := Nat.pow 2 52

/-- The least exponent of a unit in the last place. -/
def minExponent : Int := -1074

def infinityCode : Nat := 2047 * fractionCount

def mantissa (code : Nat) : Nat :=
  if code < fractionCount then code else code % fractionCount + fractionCount

/-- The exponent of the unit in the last place of a finite magnitude. -/
def unitExponent (code : Nat) : Int :=
  minExponent + ((code / fractionCount - 1 : Nat) : Int)

def ofCode (negative : Bool) (code : Nat) : Float :=
  Float.ofBits (UInt64.ofNat (if negative then signPlace + code else code))

def parts (x : Float) : Parts :=
  let bits := x.toBits.toNat
  let negative := decide (signPlace ≤ bits)
  let code := bits % signPlace
  if code < infinityCode then .finite negative (mantissa code) (unitExponent code)
  else if code = infinityCode then .infinite negative
  else .nan

/-- A finite double without its fraction, `none` for an infinity and for no number. -/
def truncate? (x : Float) : Option Int :=
  match parts x with
  | .finite negative m q =>
    let whole : Nat := if 0 ≤ q then m * Nat.pow 2 q.toNat else m / Nat.pow 2 (-q).toNat
    some (if negative then -(whole : Int) else (whole : Int))
  | .infinite _ => none
  | .nan => none

end Number
end SmallLisp
