import SmallLisp.Value.Basic

/-!
# SmallLisp.Value.Chain

The chain of a list: its elements in order, the list built from given elements, and the element at
a position. The end of a dotted list counts as its last element.
-/

namespace SmallLisp
namespace Value

def ofList : List Value → Value
  | [] => .nil
  | v :: vs => .pair v (ofList vs)

/-- The elements of a chain in order. An atom is a chain of one element, `nil` the empty one. -/
def elements : Value → List Value
  | .nil => []
  | .num x => [.num x]
  | .sym id => [.sym id]
  | .var id => [.var id]
  | .op id => [.op id]
  | .pair head tail => head :: tail.elements
  | .last head => [head]

/-- The element at a position; `nil` where the chain has ended before. -/
def nth : Nat → Value → Value
  | 0, .pair head _ => head
  | 0, .last head => head
  | 0, v => v
  | n + 1, .pair _ tail => nth n tail
  | _ + 1, _ => .nil

@[simp] theorem elements_ofList (vs : List Value) : (ofList vs).elements = vs := by
  induction vs with
  | nil => rfl
  | cons v vs ih => simp [ofList, elements, ih]

end Value
end SmallLisp
