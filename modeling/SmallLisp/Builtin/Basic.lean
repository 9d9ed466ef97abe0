import SmallLisp.Builtin.Arithmetic
import SmallLisp.Builtin.Lists
import SmallLisp.Builtin.Bindings

/-!
# SmallLisp.Builtin.Basic

The builtins and what they do. `eval` and `exit` reach out: the first evaluates in a registry, the
second may notify a shell.
-/

namespace SmallLisp

/-- The registry that `eval` takes its functions from: the one it was called in, or the standard
one. -/
inductive Scope where
  | own
  | standard
deriving DecidableEq, Repr

inductive Builtin where
  | add
  | sub
  | mul
  | div
  | cons
  | car
  | cdr
  | nth
  | list
  | set
  | get
  | dump
  | print
  | eval (scope : Scope)
  | exit (notifies : Bool)
deriving DecidableEq, Repr

namespace Builtin

/-- How `eval` evaluates a value in a scope. -/
abbrev Reentry := Scope → Value → World → Outcome

/-- Evaluates the one argument once more, or nothing. -/
def reevaluate (reenter : Reentry) (scope : Scope) (args : List Value) (w : World) : Outcome :=
  match args with
  | [] => .ok .nil w
  | [code] => reenter scope code w
  | _ => .fail (.wrongCount .eval) w

def run (reenter : Reentry) : Builtin → List Value → World → Outcome
  | .add, args, w => .ofExcept (Arithmetic.add args) w
  | .sub, args, w => .ofExcept (Arithmetic.sub args) w
  | .mul, args, w => .ofExcept (Arithmetic.mul args) w
  | .div, args, w => .ofExcept (Arithmetic.div args) w
  | .cons, args, w => .ofExcept (Lists.cons args) w
  | .car, args, w => .ofExcept (Lists.car args) w
  | .cdr, args, w => .ofExcept (Lists.cdr args) w
  | .nth, args, w => .ofExcept (Lists.nth args) w
  | .list, args, w => .ofExcept (Lists.list args) w
  | .set, args, w => Bindings.set args w
  | .get, args, w => Bindings.get args w
  | .dump, _, w => Bindings.dump w
  | .print, args, w => Bindings.print args w
  | .eval scope, args, w => reevaluate reenter scope args w
  | .exit notifies, _, w => .ok .nil (if notifies then w.requestExit else w)

end Builtin
end SmallLisp
