import SmallLisp.Error

/-!
# SmallLisp.Reader.Atom

What a single token stands for: `nil`, a symbol behind a quote, a number if the token is made of
numeral characters only, and a variable otherwise.
-/

namespace SmallLisp
namespace Reader

def isNumeralChar (c : Char) : Bool :=
  c.isDigit || c == '.' || c == '-'

/-- A token of numeral characters: a number, or an error if it is no numeral. -/
def numeral (token : List Char) : Except Error Value :=
  match Number.Decimal.read? token with
  | some d => .ok (.num d.toFloat)
  | none => .error (.malformedNumber (String.ofList token))

def atom : List Char → Except Error Value
  | [] => .error .emptyToken
  | '\'' :: id => .ok (.sym (String.ofList id))
  | token =>
    if token = ['n', 'i', 'l'] then .ok .nil
    else if token.all isNumeralChar then numeral token
    else .ok (.var (String.ofList token))

end Reader
end SmallLisp
