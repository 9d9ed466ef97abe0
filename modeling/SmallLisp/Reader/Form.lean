import SmallLisp.Reader.Atom
import SmallLisp.Text.Blank

/-!
# SmallLisp.Reader.Form

Reads the first form of a text in one pass. A stack of levels, one for each parenthesis that is
still open, collects operators and arguments; a token ends at a parenthesis, at a blank or at the
end of the text. The first token of a level names its operator, whatever its characters are; the
later ones are atoms. What follows the first form is not looked at.
-/

namespace SmallLisp
namespace Reader

/-- An open parenthesis: the operator, once it is known, and the arguments so far. -/
structure Level where
  head : Option Value
  args : List Value
deriving DecidableEq

namespace Level

def start : Level :=
  ⟨none, []⟩

/-- Takes in the value of a nested form, as the operator if there is none yet. -/
def addForm (l : Level) (form : Value) : Level :=
  match l.head with
  | none => ⟨some form, l.args⟩
  | some _ => ⟨l.head, l.args ++ [form]⟩

/-- Takes in a token, as the name of the operator if there is none yet. -/
def addToken (l : Level) (token : List Char) : Except Error Level :=
  match l.head with
  | none => .ok ⟨some (.op (String.ofList token)), l.args⟩
  | some _ =>
    match atom token with
    | .ok v => .ok ⟨l.head, l.args ++ [v]⟩
    | .error e => .error e

def close (l : Level) : Except Error Value :=
  match l.head with
  | none => .error .emptyForm
  | some head => .ok (.pair head (Value.ofList l.args))

end Level

/-- The state of the pass: the open levels, innermost first, and the characters of the token being
read, latest first. -/
structure State where
  levels : List Level
  token : List Char
deriving DecidableEq

/-- The form that was read, and the text behind it. -/
structure Reading where
  form : Value
  rest : List Char
deriving DecidableEq

namespace State

def start : State :=
  ⟨[], []⟩

/-- Ends the token being read, if there is one, at a position. -/
def flush (s : State) (position : Nat) : Except Error State :=
  match s.token with
  | [] => .ok s
  | _ :: _ =>
    match s.levels with
    | [] => .error (.strayToken (String.ofList s.token.reverse) position)
    | level :: outer =>
      match level.addToken s.token.reverse with
      | .ok level' => .ok ⟨level' :: outer, []⟩
      | .error e => .error e

/-- What is missing at the end of a text: the first form, or its end. -/
def missing (s : State) : Error :=
  match s.levels with
  | [] => .noForm
  | _ :: _ => .unclosed s.levels.length

end State

def run : List Char → Nat → State → Except Error Reading
  | [], position, s =>
    match s.flush (position - 1) with
    | .error e => .error e
    | .ok s => .error s.missing
  | c :: rest, position, s =>
    if c = '(' then
      match s.flush position with
      | .error e => .error e
      | .ok s => run rest (position + 1) ⟨Level.start :: s.levels, []⟩
    else if c = ')' then
      match s.flush position with
      | .error e => .error e
      | .ok s =>
        match s.levels with
        | [] => .error (.unmatchedClose position)
        | level :: outer =>
          match level.close, outer with
          | .error e, _ => .error e
          | .ok form, [] => .ok ⟨form, rest⟩
          | .ok form, next :: outer => run rest (position + 1) ⟨next.addForm form :: outer, []⟩
    else if Text.isBlank c then
      match s.flush position with
      | .error e => .error e
      | .ok s => run rest (position + 1) s
    else run rest (position + 1) ⟨s.levels, c :: s.token⟩

def read (text : String) : Except Error Reading :=
  run text.toList 0 State.start

def parse (text : String) : Except Error Value :=
  match read text with
  | .ok r => .ok r.form
  | .error e => .error e

end Reader
end SmallLisp
