import SmallLisp.Error

/-!
# SmallLisp.Builtin.Arithmetic

Arithmetic on doubles. Arguments are combined from left to right; division follows the rules of
doubles also where the divisor is zero.
-/

namespace SmallLisp
namespace Arithmetic

/-- The numbers that the arguments are; `operation` names who asks. -/
def numbers (operation : String) : List Value → Except Error (List Float)
  | [] => .ok []
  | .num x :: rest =>
    match numbers operation rest with
    | .ok xs => .ok (x :: xs)
    | .error e => .error e
  | _ :: _ => .error (.notNumbers operation)

def fold (operation : String) (f : Float → Float → Float) (neutral : Float) (args : List Value) :
    Except Error Value :=
  match numbers operation args with
  | .error e => .error e
  | .ok xs => .ok (.num (xs.foldl f neutral))

def foldFirst (operation : String) (counted : Counted) (f : Float → Float → Float)
    (args : List Value) : Except Error Value :=
  match numbers operation args with
  | .error e => .error e
  | .ok [] => .error (.wrongCount counted)
  | .ok (x :: xs) => .ok (.num (xs.foldl f x))

def add : List Value → Except Error Value :=
  fold "+" (· + ·) 0.0

def sub : List Value → Except Error Value :=
  foldFirst "-" .sub (· - ·)

def mul : List Value → Except Error Value :=
  fold "*" (· * ·) 1.0

def div : List Value → Except Error Value :=
  foldFirst "/" .div (· / ·)

end Arithmetic
end SmallLisp
