import SmallLisp.Number.Nearest

/-!
# SmallLisp.Number.Decimal

Decimal numbers `± digits · 10 ^ exponent`, their normal form, and the double nearest to one.
-/

namespace SmallLisp
namespace Number

/-- The number `± digits · 10 ^ exponent`. Zero has a sign too. -/
structure Decimal where
  negative : Bool
  digits : Nat
  exponent : Int
deriving DecidableEq, Repr

namespace Decimal

/-- Moves the zeros at the end of `digits` into the exponent. -/
def stripZeros (digits : Nat) (exponent : Int) : Nat × Int :=
  if h : digits ≠ 0 ∧ digits % 10 = 0 then stripZeros (digits / 10) (exponent + 1)
  else (digits, exponent)
termination_by digits
decreasing_by omega

/-- The form without zeros at the end of its digits; zero has exponent zero. -/
def normalize (d : Decimal) : Decimal :=
  if d.digits = 0 then { d with exponent := 0 }
  else
    let (digits, exponent) := stripZeros d.digits d.exponent
    { d with digits, exponent }

def toFloat (d : Decimal) : Float :=
  let n := d.normalize
  nearest n.negative (n.digits * Nat.pow 10 n.exponent.toNat) (Nat.pow 10 (-n.exponent).toNat)

def digitChars (d : Decimal) : List Char :=
  Nat.toDigits 10 d.digits

def leadExponent (d : Decimal) : Int :=
  d.exponent + (d.digitChars.length : Int) - 1

def ofDigits (cs : List Char) : Nat :=
  Nat.ofDigitChars 10 cs 0

/-- Reads digits with at most one point among them and at least one digit. -/
def readUnsigned? (negative : Bool) (cs : List Char) : Option Decimal :=
  let whole := cs.takeWhile Char.isDigit
  match cs.dropWhile Char.isDigit with
  | [] => if whole.isEmpty then none else some ⟨negative, ofDigits whole, 0⟩
  | '.' :: fraction =>
    if fraction.all Char.isDigit && !(whole.isEmpty && fraction.isEmpty) then
      some ⟨negative, ofDigits (whole ++ fraction), -(fraction.length : Int)⟩
    else none
  | _ => none

/-- Reads a numeral: a minus sign or none, then digits with at most one point. -/
def read? : List Char → Option Decimal
  | '-' :: cs => readUnsigned? true cs
  | cs => readUnsigned? false cs

end Decimal
end Number
end SmallLisp
