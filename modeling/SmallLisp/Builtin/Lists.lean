import SmallLisp.Value.Access

/-!
# SmallLisp.Builtin.Lists

Building lists and taking them apart. Counts are checked before kinds. `car` and `cdr` of nothing
are `nil`, as those of `nil` are, because a missing argument is what `nil` becomes on its way here.
-/

namespace SmallLisp
namespace Lists

def cons : List Value → Except Error Value
  | [head] => .ok (.pair head .nil)
  | [head, tail] => .ok (.pair head tail)
  | _ => .error (.wrongCount .cons)

/-- A part of the one argument, which is a list or `nil`. -/
def partOf (part : Part) (counted : Counted) (access : Value → Except Error Value) :
    List Value → Except Error Value
  | [] => .ok .nil
  | [.nil] => .ok .nil
  | [v] => if v.isList then access v else .error (.notList part v)
  | _ => .error (.wrongCount counted)

def car : List Value → Except Error Value :=
  partOf .car .car Value.car

def cdr : List Value → Except Error Value :=
  partOf .cdr .cdr Value.cdr

/-- The integer that an index stands for: a finite number without its fraction. -/
def index? : Value → Option Int
  | .num x => Number.truncate? x
  | _ => none

def nth : List Value → Except Error Value
  | [position, v] =>
    match index? position with
    | none => .error (.indexNotNumber position)
    | some i =>
      if i < 0 then .error (.indexNegative i)
      else if v.isList then v.nthAt i
      else .error (.nthNotList v)
  | _ => .error (.wrongCount .nth)

def list (args : List Value) : Except Error Value :=
  .ok (Value.ofList args)

end Lists
end SmallLisp
