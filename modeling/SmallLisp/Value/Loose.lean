import SmallLisp.Number.Written
import SmallLisp.Text.Quoted
import SmallLisp.Value.Printer

/-!
# SmallLisp.Value.Loose

Values as they may lie in the cell store, where a bare chain of cells, which is no value, can stand
in the place of one. Equality and the descriptions in messages are defined for these, so that a bare
cell can be compared and named although it can not be printed.
-/

namespace SmallLisp

/-- A value in which bare cells may occur: `cell` has no tail, `cells` has the bare chain `rest`. -/
inductive Loose where
  | nil
  | num (x : Float)
  | sym (id : String)
  | var (id : String)
  | op (id : String)
  | pair (head tail : Loose)
  | last (head : Loose)
  | cell (head : Loose)
  | cells (head rest : Loose)
deriving DecidableEq, Inhabited

namespace Loose

/-- The kind of what is stored; `nil` and bare cells have none. -/
def kind? : Loose → Option Kind
  | .nil => none
  | .num _ => some .number
  | .sym _ => some .symbol
  | .var _ => some .variable
  | .op _ => some .function
  | .pair _ _ => some .list
  | .last _ => some .list
  | .cell _ => none
  | .cells _ _ => none

def tag (v : Loose) : String :=
  match v.kind? with
  | some k => k.tag
  | none => ""

def isTruthy : Loose → Bool
  | .nil => false
  | _ => true

/-- Equality by structure. Numbers compare as doubles do, so that the two zeros are equal and `nan`
equals nothing; names of different kinds differ, and a missing link is not a link to `nil`. -/
def equal : Loose → Loose → Bool
  | .nil, .nil => true
  | .num x, .num y => x == y
  | .sym a, .sym b => a == b
  | .var a, .var b => a == b
  | .op a, .op b => a == b
  | .pair a b, .pair c d => a.equal c && b.equal d
  | .last a, .last b => a.equal b
  | .cell a, .cell b => a.equal b
  | .cells a b, .cells c d => a.equal c && b.equal d
  | _, _ => false

def describeAtom (k : Kind) (content : String) : String :=
  k.name ++ "(" ++ content ++ ")"

/-- A description, given those of the elements in case it is a list, and of itself otherwise. -/
def encloseDescription (v : Loose) (descriptions : List String) : String :=
  match v with
  | .nil => "nil"
  | .pair _ _ => describeAtom .list ("[" ++ String.intercalate ", " descriptions ++ "]")
  | .last _ => describeAtom .list ("[" ++ String.intercalate ", " descriptions ++ "]")
  | _ => String.join descriptions

def descriptions : Loose → List String
  | .nil => []
  | .num x => [describeAtom .number (Number.fullText x)]
  | .sym id => [describeAtom .symbol (Text.quoted id)]
  | .var id => [describeAtom .variable (Text.quoted id)]
  | .op id => [describeAtom .function (Text.quoted id)]
  | .pair head tail => encloseDescription head head.descriptions :: tail.descriptions
  | .last head => [encloseDescription head head.descriptions]
  | .cell head => ["Cell(" ++ encloseDescription head head.descriptions ++ ")"]
  | .cells head _ => ["Cell(" ++ encloseDescription head head.descriptions ++ ", ...)"]

/-- What messages say of a value: its kind and its content, of a list the elements in order. -/
def describe (v : Loose) : String :=
  encloseDescription v v.descriptions

/-- The value, or the bare cell that comes first in printed order. -/
def toValue : Loose → Except Loose Value
  | .nil => .ok .nil
  | .num x => .ok (.num x)
  | .sym id => .ok (.sym id)
  | .var id => .ok (.var id)
  | .op id => .ok (.op id)
  | .pair head tail =>
    match head.toValue with
    | .error c => .error c
    | .ok h =>
      match tail.toValue with
      | .error c => .error c
      | .ok t => .ok (.pair h t)
  | .last head =>
    match head.toValue with
    | .error c => .error c
    | .ok h => .ok (.last h)
  | .cell head => .error (.cell head)
  | .cells head rest => .error (.cells head rest)

end Loose

namespace Value

/-- A value as it lies in the cell store. -/
def toLoose : Value → Loose
  | .nil => .nil
  | .num x => .num x
  | .sym id => .sym id
  | .var id => .var id
  | .op id => .op id
  | .pair head tail => .pair head.toLoose tail.toLoose
  | .last head => .last head.toLoose

def equal (a b : Value) : Bool :=
  a.toLoose.equal b.toLoose

def describe (v : Value) : String :=
  v.toLoose.describe

@[simp] theorem toValue_toLoose (v : Value) : v.toLoose.toValue = .ok v := by
  induction v with
  | nil => rfl
  | num x => rfl
  | sym id => rfl
  | var id => rfl
  | op id => rfl
  | pair head tail ihh iht => simp [toLoose, Loose.toValue, ihh, iht]
  | last head ih => simp [toLoose, Loose.toValue, ih]

end Value
end SmallLisp
