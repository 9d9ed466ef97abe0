import SmallLisp.Registry

/-!
# SmallLisp.Evaluator

Evaluation of code. The walk goes down the chain of a form to its end and collects the values of the
arguments on the way back, so that they are collected in reverse source order; all links of one
chain share one collection, a list in head position gets its own. A form whose head names an
operator then calls the builtin with what is collected, every variable being replaced by its
binding. `nil` is never collected. `quote` is the only special form.

The walk itself follows the code and always ends. Only `eval` can evaluate values that are not part
of the code, so only its nesting is bounded.
-/

namespace SmallLisp
namespace Evaluator

/-- What a step of the walk yields: a result, the arguments collected so far in reverse source
order, and the world. -/
structure Step where
  result : Except Failure Value
  collected : List Value
  world : World

def Step.outcome (s : Step) : Outcome :=
  ⟨s.result, s.world⟩

/-- How a named operator is called with what was collected, at a depth. -/
abbrev Caller := String → Nat → List Value → World → Outcome

/-- The value of `quote` for the rest of its form, which must have exactly one element. -/
def quote (rest : Value) : Except Failure Value :=
  match rest.elements with
  | [v] => .ok v
  | _ => .error (.error (.wrongCount .quote))

/-- The collection after a value; `nil` is dropped. -/
def collect (collected : List Value) : Value → List Value
  | .nil => collected
  | v => collected ++ [v]

def refuse (v : Value) (depth : Nat) (collected : List Value) (w : World) : Step :=
  ⟨.error (.error (.notCode v)), collected, w.record (.visit depth v)⟩

/-- Ends the step of a form: an operator is called, any other head has yielded its value. -/
def finish (call : Caller) (head value : Value) (depth : Nat) (collected : List Value)
    (w : World) : Step :=
  match head with
  | .op name =>
    let o := call name depth collected w
    ⟨o.result, collected, o.world⟩
  | _ => ⟨.ok value, collected, w⟩

def walk (call : Caller) : Value → Nat → List Value → World → Step
  | .nil, depth, collected, w => ⟨.ok .nil, collected, w.record (.visit depth .nil)⟩
  | .num x, depth, collected, w => refuse (.num x) depth collected w
  | .sym id, depth, collected, w => refuse (.sym id) depth collected w
  | .var id, depth, collected, w => refuse (.var id) depth collected w
  | .op id, depth, collected, w => refuse (.op id) depth collected w
  | .pair head tail, depth, collected, w =>
    let w := w.record (.visit depth (.pair head tail))
    if head = .op "quote" then ⟨quote tail, collected, w⟩
    else
      let first : Outcome :=
        if head.isList then (walk call head (depth + 1) [] w).outcome else .ok head w
      match first.result with
      | .error f => ⟨.error f, collected, first.world⟩
      | .ok value =>
        let s := walk call tail (depth + 1) collected first.world
        match s.result with
        | .error f => ⟨.error f, s.collected, s.world⟩
        | .ok v => finish call head value depth (collect s.collected v) s.world
  | .last head, depth, collected, w =>
    let w := w.record (.visit depth (.last head))
    if head = .op "quote" then ⟨quote .nil, collected, w⟩
    else
      let first : Outcome :=
        if head.isList then (walk call head (depth + 1) [] w).outcome else .ok head w
      match first.result with
      | .error f => ⟨.error f, collected, first.world⟩
      | .ok value => finish call head value depth collected first.world

/-- What an argument stands for when a builtin is called: a variable for its binding, any other
value for itself. -/
def resolve (table : Table) : Value → Value
  | .var id => table.get id
  | v => v

/-- The arguments of a call in source order, from a collection in reverse order. -/
def arguments (table : Table) (collected : List Value) : List Value :=
  collected.reverse.map (resolve table)

def apply (reenter : Builtin.Reentry) (r : Registry) (name : String) (depth : Nat)
    (collected : List Value) (w : World) : Outcome :=
  let args := arguments w.table collected
  match r.lookup name with
  | .error e => .fail e w
  | .ok b => b.run reenter args (w.record (.call depth name args))

abbrev Evaluation := Registry → Value → World → Outcome

def reentry (evaluation : Evaluation) (r : Registry) : Builtin.Reentry :=
  fun scope code w => evaluation (r.inScope scope) code w

def stepWith (evaluation : Evaluation) (r : Registry) : Value → Nat → List Value → World → Step :=
  walk (apply (reentry evaluation r) r)

/-- Evaluation with at most `n` evaluations inside one another, itself among them. -/
def nested : Nat → Evaluation
  | 0 => fun _ _ w => ⟨.error .exhausted, w⟩
  | n + 1 => fun r code w => (stepWith (nested n) r code 0 [] w).outcome

end Evaluator

/-- A step of the walk; `nesting` bounds how many evaluations by `eval` may be inside one
another. -/
def evaluateStep (nesting : Nat) : Registry → Value → Nat → List Value → World → Evaluator.Step :=
  Evaluator.stepWith (Evaluator.nested nesting)

def applyOperator (nesting : Nat) (r : Registry) :
    String → Nat → List Value → World → Outcome :=
  Evaluator.apply (Evaluator.reentry (Evaluator.nested nesting) r) r

/-- Calls the builtin with a name on arguments as they are: none is looked up or dropped. -/
def callNamed (nesting : Nat) (r : Registry) (name : String) (args : List Value) (w : World) :
    Outcome :=
  match r.lookup name with
  | .error e => .fail e w
  | .ok b => b.run (Evaluator.reentry (Evaluator.nested nesting) r) args w

def evaluate (nesting : Nat) (r : Registry) (code : Value) (w : World) : Outcome :=
  (evaluateStep nesting r code 0 [] w).outcome

def evaluateText (nesting : Nat) (r : Registry) (text : String) (w : World) : Outcome :=
  match Reader.parse text with
  | .error e => .fail e w
  | .ok code => evaluate nesting r code w

/-- How many evaluations by `eval` may be inside one another unless something else is said. -/
def defaultNesting : Nat := 1000

end SmallLisp
