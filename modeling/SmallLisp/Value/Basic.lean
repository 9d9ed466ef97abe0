/-!
# SmallLisp.Value.Basic

The values of the language. Code and data are the same values: a form is a list whose first element
names the operator. The empty list is `nil`, and so is the missing value.
-/

namespace SmallLisp

/-- A value. A list is a chain of elements: `pair` is an element followed by what its link holds,
another list, `nil` at the end of a proper list, or an atom at the end of a dotted one; `last` is
the last element of an open list, which has no link. -/
inductive Value where
  | nil
  | num (x : Float)
  | sym (id : String)
  | var (id : String)
  | op (id : String)
  | pair (head tail : Value)
  | last (head : Value)
deriving DecidableEq, Inhabited

/-- The kinds of values that carry a mark in tagged text. -/
inductive Kind where
  | number
  | symbol
  | variable
  | function
  | list
deriving DecidableEq, Repr

namespace Kind

def letter : Kind → String
  | .number => "n"
  | .symbol => "s"
  | .variable => "v"
  | .function => "f"
  | .list => "c"

def name : Kind → String
  | .number => "Number"
  | .symbol => "Symbol"
  | .variable => "Variable"
  | .function => "Function"
  | .list => "LispList"

def tag (k : Kind) : String :=
  "[" ++ k.letter ++ "] "

end Kind

namespace Value

/-- The kind of a value; `nil` has none. -/
def kind? : Value → Option Kind
  | .nil => none
  | .num _ => some .number
  | .sym _ => some .symbol
  | .var _ => some .variable
  | .op _ => some .function
  | .pair _ _ => some .list
  | .last _ => some .list

/-- Lists have at least one element: `nil` is none. -/
def isList : Value → Bool
  | .pair _ _ => true
  | .last _ => true
  | _ => false

def isTruthy : Value → Bool
  | .nil => false
  | _ => true

def name? : Value → Option String
  | .sym id => some id
  | .var id => some id
  | .op id => some id
  | _ => none

end Value
end SmallLisp
