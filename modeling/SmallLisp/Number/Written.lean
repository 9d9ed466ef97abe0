import SmallLisp.Number.Shortest

/-!
# SmallLisp.Number.Written

The two written forms of a number. `fullText` always shows that a number is a double: shortest
digits, positional with at least one decimal for exponents from -4 to 15, otherwise scientific.
`text`, the form that values print in, leaves the decimals of whole numbers out.
-/

namespace SmallLisp
namespace Number

structure Layout where
  /-- The least exponent of the first digit that is written positionally. -/
  leastPositional : Int
  /-- The first exponent of the first digit that no longer is. -/
  positionalLimit : Int
  /-- The least number of digits of an exponent. -/
  exponentWidth : Nat

/-- Numbers are positional from `0.0001` up to, but without, `10 ^ 16`; an exponent has at least
two digits. -/
def layout : Layout := ⟨-4, 16, 2⟩

def signText (negative : Bool) : List Char :=
  if negative then ['-'] else []

def zeros (n : Nat) : List Char :=
  List.replicate n '0'

def isPositional (d : Decimal) : Bool :=
  layout.leastPositional ≤ d.leadExponent && d.leadExponent < layout.positionalLimit

def wholeText (d : Decimal) : List Char :=
  d.digitChars ++ zeros d.exponent.toNat

def positionalText (d : Decimal) : List Char :=
  if 0 ≤ d.exponent then wholeText d ++ ['.', '0']
  else if 0 ≤ d.leadExponent then
    let point := d.leadExponent.toNat + 1
    d.digitChars.take point ++ '.' :: d.digitChars.drop point
  else '0' :: '.' :: zeros (-d.leadExponent - 1).toNat ++ d.digitChars

def exponentText (e : Int) : List Char :=
  let digits := Nat.toDigits 10 e.natAbs
  'e' :: (if e < 0 then '-' else '+') :: zeros (layout.exponentWidth - digits.length) ++ digits

def scientificText (d : Decimal) : List Char :=
  let mantissa := match d.digitChars with
    | [] => []
    | [c] => [c]
    | c :: cs => c :: '.' :: cs
  mantissa ++ exponentText d.leadExponent

/-- A decimal in normal form, written as a double. -/
def decimalRepr (d : Decimal) : List Char :=
  signText d.negative ++ (if isPositional d then positionalText d else scientificText d)

/-- A decimal in normal form: a whole number that is positional has no point, and zero no sign. -/
def decimalText (d : Decimal) : List Char :=
  if d.digits = 0 then ['0']
  else if 0 ≤ d.exponent && isPositional d then signText d.negative ++ wholeText d
  else decimalRepr d

def infinityText (negative : Bool) : List Char :=
  signText negative ++ ['i', 'n', 'f']

def nanText : List Char := ['n', 'a', 'n']

/-- A double in full: shortest digits that read back, with a point or an exponent. -/
def fullText (x : Float) : String :=
  String.ofList <| match parts x with
    | .finite negative m q => decimalRepr (shortest x negative m q)
    | .infinite negative => infinityText negative
    | .nan => nanText

def text (x : Float) : String :=
  String.ofList <| match parts x with
    | .finite negative m q => decimalText (shortest x negative m q)
    | .infinite negative => infinityText negative
    | .nan => nanText

end Number
end SmallLisp
