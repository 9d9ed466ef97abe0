import SmallLisp.Value.Loose

/-!
# SmallLisp.Error

What can go wrong. Each cause is a constructor that carries what its message names; `Error.kind`
sorts the causes, `Error.message` words them.
-/

namespace SmallLisp

inductive Counted where
  | sub
  | div
  | cons
  | car
  | cdr
  | nth
  | set
  | get
  | eval
  | quote
deriving DecidableEq, Repr

def Counted.message : Counted → String
  | .sub => "- requires at least 1 argument"
  | .div => "/ requires at least 1 argument"
  | .cons => "cons requires 1 or 2 arguments"
  | .car => "car requires exactly 1 argument"
  | .cdr => "cdr requires exactly 1 argument"
  | .nth => "nth requires exactly 2 arguments"
  | .set => "set requires exactly 2 arguments: (set 'name value)"
  | .get => "get requires exactly 1 argument"
  | .eval => "eval expects exactly one argument"
  | .quote => "Quote expects exactly 1 argument"

inductive Part where
  | car
  | cdr
deriving DecidableEq, Repr

def Part.name : Part → String
  | .car => "car"
  | .cdr => "cdr"

inductive Error where
  | emptyToken
  | malformedNumber (token : String)
  /-- A token stands outside of every form; its end was noticed at `position`. -/
  | strayToken (token : String) (position : Nat)
  | unmatchedClose (position : Nat)
  | emptyForm
  /-- The text ended inside `count` forms. -/
  | unclosed (count : Nat)
  | noForm
  | wrongCount (operation : Counted)
  | notNumbers (operation : String)
  | notList (part : Part) (got : Value)
  | indexNotNumber (got : Value)
  | indexNegative (index : Int)
  | nthNotList (got : Value)
  | setName (got : Value)
  /-- The value given to `set` is of a kind that is not stored. -/
  | notStorable (kind : Kind)
  | getName (got : Value)
  | keyNotName (got : Value)
  /-- What should be printed is a bare cell. -/
  | unprintable (got : Loose)
  | unknownFunction (name : String)
  | notCode (got : Value)
  | frozenRegistry (name : String)
  | nameTaken (name : String)
  | partOfNonList (part : Part) (got : Value)
  | negativePosition (index : Int)
deriving DecidableEq

inductive ErrorKind where
  | syntaxError
  | arityError
  | typeError
  | nameError
  | evaluationError
  | registryError
  | preconditionError
deriving DecidableEq, Repr

namespace Error

def kind : Error → ErrorKind
  | .emptyToken => .syntaxError
  | .malformedNumber _ => .syntaxError
  | .strayToken _ _ => .syntaxError
  | .unmatchedClose _ => .syntaxError
  | .emptyForm => .syntaxError
  | .unclosed _ => .syntaxError
  | .noForm => .syntaxError
  | .wrongCount _ => .arityError
  | .notNumbers _ => .typeError
  | .notList _ _ => .typeError
  | .indexNotNumber _ => .typeError
  | .indexNegative _ => .typeError
  | .nthNotList _ => .typeError
  | .setName _ => .typeError
  | .notStorable _ => .typeError
  | .getName _ => .typeError
  | .keyNotName _ => .typeError
  | .unprintable _ => .typeError
  | .unknownFunction _ => .nameError
  | .notCode _ => .evaluationError
  | .frozenRegistry _ => .registryError
  | .nameTaken _ => .registryError
  | .partOfNonList _ _ => .preconditionError
  | .negativePosition _ => .preconditionError

def natText (n : Nat) : String :=
  String.ofList (Nat.toDigits 10 n)

def intText (i : Int) : String :=
  if i < 0 then "-" ++ natText i.natAbs else natText i.natAbs

def message : Error → String
  | .emptyToken => "Cannot parse an empty token"
  | .malformedNumber token => "Malformed number " ++ Text.quoted token
  | .strayToken token position =>
    "Unexpected token " ++ Text.quoted token ++ " outside of a form at " ++ natText position
  | .unmatchedClose position => "Unmatched ')' at " ++ natText position
  | .emptyForm => "Empty form: '()' has no operator"
  | .unclosed count => "Unbalanced parentheses: " ++ natText count ++ " '(' left open"
  | .noForm => "No form found in input"
  | .wrongCount operation => operation.message
  | .notNumbers operation => "All arguments to " ++ operation ++ " must be numbers"
  | .notList part got => part.name ++ " argument must be a list, got " ++ got.describe
  | .indexNotNumber got => "nth index must be a number, got " ++ got.describe
  | .indexNegative index => "nth index must not be negative, got " ++ intText index
  | .nthNotList got => "nth second argument must be a list, got " ++ got.describe
  | .setName got => "set first argument must be a symbol, got " ++ got.render
  | .notStorable kind => "set is not supported for " ++ kind.name ++ " values"
  | .getName got => "get argument must be a symbol, got " ++ got.render
  | .keyNotName got => "Cannot bind " ++ got.describe ++ ": names must be text"
  | .unprintable got => "Cannot print value " ++ got.describe
  | .unknownFunction name => "Unknown function " ++ name
  | .notCode got => "Cannot evaluate " ++ got.render ++ ": code must be nil or a list"
  | .frozenRegistry name => "Cannot register " ++ name ++ ": registry is frozen"
  | .nameTaken name => "Builtin " ++ name ++ " is already registered"
  | .partOfNonList part got => part.name ++ " of non-list value " ++ got.describe
  | .negativePosition index => "nth index must be non-negative, got " ++ intText index

end Error

/-- The text of what may be a bare cell; it fails on the first bare cell in printed order. -/
def Loose.render? (v : Loose) : Except Error String :=
  match v.toValue with
  | .error c => .error (.unprintable c)
  | .ok value => .ok value.render

end SmallLisp
