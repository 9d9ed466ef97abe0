import SmallLisp.Reader.Form
import SmallLisp.Table

/-!
# SmallLisp.World

What evaluation acts on: the table, the text printed so far, the number of exit requests and the
trace of what happened. An outcome is a result together with the world it was reached in, so that a
failure keeps what was done before it.
-/

namespace SmallLisp

inductive Event where
  | visit (depth : Nat) (code : Value)
  | call (depth : Nat) (name : String) (args : List Value)
  /-- A text has more than blanks behind its first form. -/
  | ignored (rest : String)
  | exitRequested
deriving DecidableEq

namespace Event

def indent (depth : Nat) : String :=
  String.ofList (List.replicate (2 * depth) ' ')

/-- The line of an event in the log. Steps on anything but a list have none. -/
def line? : Event → Option String
  | .visit depth code =>
    if code.isList then
      some ("mylisp.evaluation.evaluator: " ++ indent depth ++ "eval: " ++ code.render)
    else none
  | .call depth name args =>
    some ("mylisp.evaluation.apply: " ++ indent depth ++ "call: (" ++
      String.intercalate " " (name :: args.map Value.render) ++ ")")
  | .ignored rest =>
    some ("mylisp.reader.parser: ignoring input after first form: " ++ Text.quoted rest)
  | .exitRequested => some "mylisp.interpreter: exit requested"

end Event

def logLines (trace : List Event) : List String :=
  trace.filterMap Event.line?

/-- What reading records: the text behind the form, if it is not blank. -/
def Reader.Reading.events (r : Reader.Reading) : List Event :=
  if Text.allBlank r.rest then [] else [.ignored (String.ofList r.rest)]

structure World where
  table : Table
  output : String
  exits : Nat
  trace : List Event
deriving DecidableEq

namespace World

def start (table : Table) : World :=
  ⟨table, "", 0, []⟩

def record (w : World) (e : Event) : World :=
  { w with trace := w.trace ++ [e] }

def print (w : World) (text : String) : World :=
  { w with output := w.output ++ text }

def bind (w : World) (name : String) (v : Value) : World :=
  { w with table := w.table.bind name v }

def requestExit (w : World) : World :=
  { w with exits := w.exits + 1, trace := w.trace ++ [.exitRequested] }

end World

/-- Why evaluation ends without a value: an error, an interrupt from outside, or too many
evaluations inside one another. -/
inductive Failure where
  | error (cause : Error)
  | interrupted
  | exhausted
deriving DecidableEq

structure Outcome where
  result : Except Failure Value
  world : World

namespace Outcome

def ok (v : Value) (w : World) : Outcome :=
  ⟨.ok v, w⟩

def fail (e : Error) (w : World) : Outcome :=
  ⟨.error (.error e), w⟩

def ofExcept (r : Except Error Value) (w : World) : Outcome :=
  match r with
  | .ok v => ok v w
  | .error e => fail e w

end Outcome
end SmallLisp
