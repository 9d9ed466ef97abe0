import SmallLisp.Session

/-!
# SmallLisp.Interrupt

Interrupts. One comes from outside, at a moment that is told by the number of calls of builtins made
by then, and it meets an evaluation that is about to make one more or, if there is none, about to
hand its result over: between two calls an evaluation does nothing but take note of its steps. What
was done by then stays done; the result is given up.
-/

namespace SmallLisp

def Event.isCall : Event → Bool
  | .call _ _ _ => true
  | _ => false

/-- How many calls of builtins are on record. -/
def callCount (trace : List Event) : Nat :=
  trace.countP Event.isCall

namespace Evaluator

/-- Calls as long as the interrupt has not arrived. -/
def heed (moment : Nat) (call : Caller) : Caller := fun name depth collected w =>
  if callCount w.trace < moment then call name depth collected w else ⟨.error .interrupted, w⟩

/-- `nested`, with an interrupt behind so many calls, wherever they are made. -/
def nestedUntil (moment : Nat) : Nat → Evaluation
  | 0 => fun _ _ w => ⟨.error .exhausted, w⟩
  | n + 1 => fun r code w =>
    (walk (heed moment (apply (reentry (nestedUntil moment n) r) r)) code 0 [] w).outcome

end Evaluator

/-- `evaluate`, with an interrupt behind so many calls. -/
def evaluateUntil (moment nesting : Nat) : Evaluator.Evaluation :=
  Evaluator.nestedUntil moment (nesting + 1)

namespace Session

/-- The answer is given up if the interrupt has arrived. -/
def Answer.heed (a : Answer) (moment : Nat) : Answer :=
  if callCount a.trace < moment then a else { a with result := .error .interrupted }

/-- `evaluateAfter`, with an interrupt behind so many calls. -/
def evaluateAfterUntil (moment : Nat) (s : Session) (events : List Event) (code : Value) : Answer :=
  let o := evaluateUntil moment s.nesting s.registry code
    { World.start s.table with trace := events }
  ⟨o.result, o.world.output, o.world.trace, s.after o.world⟩

/-- Serves a text with an interrupt behind so many calls. If there are fewer of them, it comes too
late. -/
def requestUntil (moment : Nat) (s : Session) (text : String) : Answer :=
  if s.isRepeat text then Answer.heed ⟨.ok s.lastResult, "", [], s⟩ moment
  else
    match Reader.read text with
    | .error e => (s.refuse e).heed moment
    | .ok r => ((s.evaluateAfterUntil moment r.events r.form).heed moment).remember r.form

end Session
end SmallLisp
