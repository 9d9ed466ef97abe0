import SmallLisp.Error

/-!
# SmallLisp.Value.Access

Access to the parts of a list. Asking something that is no list, `nil` included, for its parts is an
error of the caller, and so is a negative position.
-/

namespace SmallLisp
namespace Value

def car : Value → Except Error Value
  | .pair head _ => .ok head
  | .last head => .ok head
  | v => .error (.partOfNonList .car v)

/-- What follows the first element of a list: the rest of the chain, or the atom that ends a dotted
one. An open list of one element is followed by `nil`. -/
def cdr : Value → Except Error Value
  | .pair _ tail => .ok tail
  | .last _ => .ok .nil
  | v => .error (.partOfNonList .cdr v)

def nthAt (index : Int) (v : Value) : Except Error Value :=
  if index < 0 then .error (.negativePosition index) else .ok (v.nth index.toNat)

end Value
end SmallLisp
