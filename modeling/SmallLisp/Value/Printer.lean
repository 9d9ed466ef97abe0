import SmallLisp.Number.Written
import SmallLisp.Value.Chain

/-!
# SmallLisp.Value.Printer

Values as text. A list prints its elements between parentheses, with a blank between neighbours;
its text does not show whether it ends in `nil`, in an atom or open. Tagged text has the mark of
the kind in front.
-/

namespace SmallLisp
namespace Value

/-- The text of a value, given the texts of its elements in case it is a list. -/
def enclose (v : Value) (texts : List String) : String :=
  match v with
  | .nil => "nil"
  | .num x => Number.text x
  | .sym id => "'" ++ id
  | .var id => id
  | .op id => id
  | .pair _ _ => "(" ++ String.intercalate " " texts ++ ")"
  | .last _ => "(" ++ String.intercalate " " texts ++ ")"

def elementTexts : Value → List String
  | .nil => []
  | .num x => [enclose (.num x) []]
  | .sym id => [enclose (.sym id) []]
  | .var id => [enclose (.var id) []]
  | .op id => [enclose (.op id) []]
  | .pair head tail => enclose head head.elementTexts :: tail.elementTexts
  | .last head => [enclose head head.elementTexts]

def render (v : Value) : String :=
  enclose v v.elementTexts

def tag (v : Value) : String :=
  match v.kind? with
  | some k => k.tag
  | none => ""

def tagged (v : Value) : String :=
  v.tag ++ v.render

theorem elementTexts_eq_map (v : Value) : v.elementTexts = v.elements.map render := by
  induction v with
  | nil => rfl
  | num x => rfl
  | sym id => rfl
  | var id => rfl
  | op id => rfl
  | pair head tail _ ih => simp [elementTexts, elements, render, ih]
  | last head _ => simp [elementTexts, elements, render]

end Value
end SmallLisp
