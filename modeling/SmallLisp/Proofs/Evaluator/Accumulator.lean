import SmallLisp.Proofs.Evaluator.Walk

/-!
# SmallLisp.Proofs.Evaluator.Accumulator

What becomes of the collection that a step of evaluation is given. Behind the head of a list stand
elements, which have values in source order; while no operator is among them, these values are all
that is added, in reverse and only once there is no error any more to come. So a step that fails on
the way leaves nothing behind, and nothing but a call ever looks at what was collected before.

* `elementValues`: the values of the elements of a chain, without a collection. `walk_chain`: the
  walk over such a chain.
* `walk_extends`: whatever the code is, a collection is only extended.
* `walk_list`: the walk over a list with such a chain behind its head, taken apart once.
  `walk_collected`, `walk_of_head_error`, `walk_of_rest_error`: its ends; `walk_call`: the call.
* `guardedWalk_eq`: the collections that the steps inside a step begin with.
* `evaluateStep_accumulator`: a step of evaluation.
-/

namespace SmallLisp

/-- No element of a chain is an operator, whatever is in its lists and whatever it ends in. -/
def Value.OperatorFree : Value → Prop
  | .pair head tail => (∀ name, head ≠ .op name) ∧ tail.OperatorFree
  | .last head => ∀ name, head ≠ .op name
  | _ => True

namespace Evaluator

/-! ## Elements -/

/-- What the elements of a chain come to, one after the other: their values in source order, or what
went wrong first. -/
structure Elements where
  result : Except Failure (List Value)
  world : World

/-- The values of the elements of a chain. A list among them is evaluated by itself, and any other
element stands for itself; an atom at the end is refused. -/
def elementValues (call : Caller) : Value → Nat → World → Elements
  | .nil, depth, w => ⟨.ok [], w.record (.visit depth .nil)⟩
  | .pair head tail, depth, w =>
    let first := headOutcome call head depth (w.record (.visit depth (.pair head tail)))
    match first.result with
    | .error f => ⟨.error f, first.world⟩
    | .ok v =>
      let later := elementValues call tail (depth + 1) first.world
      ⟨later.result.map (v :: ·), later.world⟩
  | .last head, depth, w =>
    let first := headOutcome call head depth (w.record (.visit depth (.last head)))
    ⟨first.result.map ([·]), first.world⟩
  | atom, depth, w => ⟨.error (.error (.notCode atom)), w.record (.visit depth atom)⟩

/-- The values of what stands behind the first element of a list. -/
def restValues (call : Caller) : Value → Nat → World → Elements
  | .pair _ tail, depth, w => elementValues call tail (depth + 1) w
  | _, _, w => ⟨.ok [], w⟩

/-- The values that are collected: `nil` is dropped. -/
def present (vs : List Value) : List Value :=
  vs.filter fun v => v ≠ .nil

theorem collect_present (acc vs : List Value) :
    collect (acc ++ (present vs.tail).reverse) (vs.headD .nil) = acc ++ (present vs).reverse := by
  cases vs with
  | nil => rfl
  | cons v vs => cases v <;> simp [collect, present]

theorem arguments_present (t : Table) (acc vs : List Value) :
    arguments t (acc ++ (present vs).reverse) = (present vs ++ acc.reverse).map (resolve t) := by
  rw [arguments, List.reverse_append, List.reverse_reverse]

/-- What a walk over a chain yields: the value of the first element, and those of the later ones
collected. The last of these is collected first, when no element is left to fail. -/
def Elements.step (e : Elements) (acc : List Value) : Step :=
  match e.result with
  | .error f => ⟨.error f, acc, e.world⟩
  | .ok vs => ⟨.ok (vs.headD .nil), acc ++ (present vs.tail).reverse, e.world⟩

theorem walk_chain (call : Caller) {chain : Value} (h : chain.OperatorFree) :
    ∀ depth acc w, walk call chain depth acc w =
      (elementValues call chain depth w).step acc := by
  induction chain with
  | pair head tail _ iht =>
    intro depth acc w
    obtain ⟨hop, htail⟩ := h
    rw [walk_pair (hop "quote"), elementValues]
    cases hfirst : (headOutcome call head depth (w.record (.visit depth (.pair head tail)))).result with
    | error f => simp only [hfirst, Elements.step]
    | ok v =>
      simp only [hfirst, iht htail, finish_of_ne_op hop]
      generalize elementValues call tail (depth + 1) _ = later
      cases hlater : later.result with
      | error f => simp only [Elements.step, hlater, Except.map]
      | ok vs => simp only [Elements.step, hlater, Except.map, collect_present]; rfl
  | last head _ =>
    intro depth acc w
    rw [walk_last (h "quote"), elementValues]
    cases hfirst : (headOutcome call head depth (w.record (.visit depth (.last head)))).result with
    | error f => simp only [hfirst, Elements.step, Except.map]
    | ok v =>
      simp only [hfirst, finish_of_ne_op h, Elements.step, Except.map]
      simp [present]
  | nil => intro depth acc w; simp [walk, elementValues, Elements.step, present]
  | _ => intro depth acc w; rfl

/-! ## Any code -/

theorem collect_extends (acc : List Value) (v : Value) : acc <+: collect acc v := by
  cases v with
  | nil => exact List.prefix_refl _
  | _ => exact List.prefix_append _ _

theorem finish_collected (call : Caller) (head value : Value) (depth : Nat) (acc : List Value)
    (w : World) : (finish call head value depth acc w).collected = acc := by
  cases head <;> rfl

/-- What was collected stays, in front of what is collected then. -/
theorem walk_extends (call : Caller) (code : Value) :
    ∀ depth acc w, acc <+: (walk call code depth acc w).collected := by
  induction code with
  | pair head tail _ iht =>
    intro depth acc w
    by_cases hq : head = .op "quote"
    · simp only [hq, walk_pair_quote, List.prefix_refl]
    rw [walk_pair hq]
    dsimp only
    split
    · exact List.prefix_refl _
    · have htail := iht (depth + 1) acc
        (headOutcome call head depth (w.record (.visit depth (.pair head tail)))).world
      split
      · exact htail
      · rw [finish_collected]
        exact htail.trans (collect_extends _ _)
  | last head _ =>
    intro depth acc w
    by_cases hq : head = .op "quote"
    · simp only [hq, walk_last_quote, List.prefix_refl]
    rw [walk_last hq]
    dsimp only
    split
    · exact List.prefix_refl _
    · simp only [finish_collected, List.prefix_refl]
  | _ => intro depth acc w; exact List.prefix_refl _

/-! ## Lists -/

section Lists

variable {code head rest : Value} (hhead : code.car = .ok head) (hrest : code.cdr = .ok rest)

include hhead hrest

theorem walk_quoted (hquote : head = .op "quote") (call : Caller) (depth : Nat) (acc : List Value)
    (w : World) :
    walk call code depth acc w = ⟨quote rest, acc, w.record (.visit depth code)⟩ := by
  cases code with
  | pair _ _ => cases hhead; cases hrest; subst hquote; exact walk_pair_quote ..
  | last _ => cases hhead; cases hrest; subst hquote; exact walk_last_quote ..
  | _ => cases hhead

theorem walk_list (hquote : head ≠ .op "quote") (hfree : rest.OperatorFree) (call : Caller)
    (depth : Nat) (acc : List Value) (w : World) : walk call code depth acc w =
      let first := headOutcome call head depth (w.record (.visit depth code))
      match first.result with
      | .error f => ⟨.error f, acc, first.world⟩
      | .ok value =>
        let later := restValues call code depth first.world
        match later.result with
        | .error f => ⟨.error f, acc, later.world⟩
        | .ok vs => finish call head value depth (acc ++ (present vs).reverse) later.world := by
  cases code with
  | pair _ _ =>
    cases hhead
    cases hrest
    rw [walk_pair hquote]
    simp only [restValues, walk_chain call hfree]
    generalize headOutcome call head depth (w.record (.visit depth (.pair head rest))) = first
    cases first.result with
    | error f => rfl
    | ok value =>
      generalize elementValues call rest (depth + 1) first.world = later
      cases hlater : later.result with
      | error f => simp only [Elements.step, hlater]
      | ok vs => simp only [Elements.step, hlater, collect_present]
  | last _ =>
    cases hhead
    rw [walk_last hquote]
    generalize headOutcome call head depth (w.record (.visit depth (.last head))) = first
    dsimp only
    cases first.result with
    | error f => rfl
    | ok value =>
      simp only [restValues, present, List.filter_nil, List.reverse_nil, List.append_nil]
  | _ => cases hhead

section Unquoted

variable (hquote : head ≠ .op "quote") (hfree : rest.OperatorFree) {call : Caller} {depth : Nat}
  {acc : List Value} {w : World}

include hquote hfree

theorem walk_collected {v : Value} (h : (walk call code depth acc w).result = .ok v) :
    ∃ vs, (restValues call code depth
        (headOutcome call head depth (w.record (.visit depth code))).world).result = .ok vs ∧
      (walk call code depth acc w).collected = acc ++ (present vs).reverse := by
  rw [walk_list hhead hrest hquote hfree] at h ⊢
  generalize headOutcome call head depth (w.record (.visit depth code)) = first at h ⊢
  dsimp only at h ⊢
  cases hfirst : first.result with
  | error f => simp [hfirst] at h
  | ok value =>
    cases hlater : (restValues call code depth first.world).result with
    | error f => simp [hfirst, hlater] at h
    | ok vs => exact ⟨vs, rfl, finish_collected _ _ _ _ _ _⟩

theorem walk_of_head_error {f : Failure}
    (h : (headOutcome call head depth (w.record (.visit depth code))).result = .error f) :
    (walk call code depth acc w).result = .error f ∧
      (walk call code depth acc w).collected = acc := by
  rw [walk_list hhead hrest hquote hfree]
  simp only [h, and_self]

theorem walk_of_rest_error {value : Value} {f : Failure}
    (h : (headOutcome call head depth (w.record (.visit depth code))).result = .ok value)
    (h' : (restValues call code depth
      (headOutcome call head depth (w.record (.visit depth code))).world).result = .error f) :
    (walk call code depth acc w).result = .error f ∧
      (walk call code depth acc w).collected = acc := by
  rw [walk_list hhead hrest hquote hfree]
  simp only [h, h', and_self]

end Unquoted

/-- Only a call looks at what was collected before. -/
theorem walk_outcome_congr (hfree : rest.OperatorFree)
    (hop : ∀ name, head = .op name → name = "quote") (call : Caller) (depth : Nat)
    (acc acc' : List Value) (w : World) :
    (walk call code depth acc w).outcome = (walk call code depth acc' w).outcome := by
  by_cases hquote : head = .op "quote"
  · rw [walk_quoted hhead hrest hquote, walk_quoted hhead hrest hquote]
    rfl
  have hne : ∀ name, head ≠ .op name := fun name h => hquote (hop name h ▸ h)
  rw [walk_list hhead hrest hquote hfree, walk_list hhead hrest hquote hfree]
  generalize headOutcome call head depth (w.record (.visit depth code)) = first
  dsimp only
  cases first.result with
  | error f => rfl
  | ok value =>
    generalize restValues call code depth first.world = later
    dsimp only
    cases later.result with
    | error f => rfl
    | ok vs =>
      dsimp only
      rw [finish_of_ne_op hne, finish_of_ne_op hne]
      rfl

end Lists

/-- A form with an operator is a call with what its elements come to, and then what was collected
before. -/
theorem walk_call {code rest : Value} {name : String} (hhead : code.car = .ok (.op name))
    (hrest : code.cdr = .ok rest) (hname : name ≠ "quote") (hfree : rest.OperatorFree)
    {call : Caller} {depth : Nat} {acc : List Value} {w : World} {vs : List Value}
    (h : (restValues call code depth (w.record (.visit depth code))).result = .ok vs) :
    (walk call code depth acc w).outcome = call name depth (acc ++ (present vs).reverse)
      (restValues call code depth (w.record (.visit depth code))).world := by
  have hquote : Value.op name ≠ .op "quote" := by simpa using hname
  have hfirst : headOutcome call (.op name) depth (w.record (.visit depth code)) =
      .ok (.op name) (w.record (.visit depth code)) := rfl
  rw [walk_list hhead hrest hquote hfree, hfirst]
  simp only [Outcome.ok, h]
  rfl

/-! ## The steps inside a step -/

/-- What a step could be instead of what it is. -/
abbrev Alarm := Value → Nat → List Value → World → Step

section Guard

variable (allowed : List Value → Bool) (alarm : Alarm)

/-- The walk, where every step that begins with a collection that is not allowed is replaced. -/
def guardedWalk (call : Caller) : Value → Nat → List Value → World → Step
  | .pair head tail, depth, collected, w =>
    if allowed collected then
      let w := w.record (.visit depth (.pair head tail))
      if head = .op "quote" then ⟨quote tail, collected, w⟩
      else
        let first : Outcome :=
          if head.isList then (guardedWalk call head (depth + 1) [] w).outcome else .ok head w
        match first.result with
        | .error f => ⟨.error f, collected, first.world⟩
        | .ok value =>
          let s := guardedWalk call tail (depth + 1) collected first.world
          match s.result with
          | .error f => ⟨.error f, s.collected, s.world⟩
          | .ok v => finish call head value depth (collect s.collected v) s.world
    else alarm (.pair head tail) depth collected w
  | .last head, depth, collected, w =>
    if allowed collected then
      let w := w.record (.visit depth (.last head))
      if head = .op "quote" then ⟨quote .nil, collected, w⟩
      else
        let first : Outcome :=
          if head.isList then (guardedWalk call head (depth + 1) [] w).outcome else .ok head w
        match first.result with
        | .error f => ⟨.error f, collected, first.world⟩
        | .ok value => finish call head value depth collected first.world
    else alarm (.last head) depth collected w
  | atom, depth, collected, w =>
    if allowed collected then walk call atom depth collected w else alarm atom depth collected w

/-- Evaluation by such walks, also where `eval` evaluates. -/
def guardedNested : Nat → Evaluation
  | 0 => fun _ _ w => ⟨.error .exhausted, w⟩
  | n + 1 => fun r code w =>
    (guardedWalk allowed alarm (apply (reentry (guardedNested n) r) r) code 0 [] w).outcome

/-- A step of evaluation by such walks. -/
def guardedStep (nesting : Nat) (r : Registry) : Value → Nat → List Value → World → Step :=
  guardedWalk allowed alarm (apply (reentry (guardedNested allowed alarm nesting) r) r)

variable {allowed} (hempty : allowed [] = true)

include hempty

theorem guardedWalk_eq (call : Caller) (code : Value) :
    ∀ depth acc w, allowed acc = true →
      guardedWalk allowed alarm call code depth acc w = walk call code depth acc w := by
  induction code with
  | pair head tail ihh iht =>
    intro depth acc w hacc
    rw [guardedWalk, if_pos hacc]
    simp only [fun depth w => ihh depth [] w hempty, fun depth w => iht depth acc w hacc]
    rfl
  | last head ihh =>
    intro depth acc w hacc
    rw [guardedWalk, if_pos hacc]
    simp only [fun depth w => ihh depth [] w hempty]
    rfl
  | _ => intro depth acc w hacc; exact if_pos hacc

theorem guardedNested_eq (n : Nat) : guardedNested allowed alarm n = nested n := by
  induction n with
  | zero => rfl
  | succ n ih =>
    funext r code w
    rw [guardedNested, ih]
    exact congrArg Step.outcome (guardedWalk_eq alarm hempty _ code 0 [] w hempty)

/-- No step inside a step begins with anything but what that one was given, or with nothing. -/
theorem guardedStep_eq (nesting : Nat) (r : Registry) (code : Value) (depth : Nat)
    {acc : List Value} (hacc : allowed acc = true) (w : World) :
    guardedStep allowed alarm nesting r code depth acc w = evaluateStep nesting r code depth acc w := by
  rw [guardedStep, guardedNested_eq alarm hempty, guardedWalk_eq alarm hempty _ code depth acc w hacc]
  rfl

end Guard

/-! ## A step of evaluation -/

section Steps

variable {code head rest : Value} (hhead : code.car = .ok head) (hrest : code.cdr = .ok rest)
  (hfree : rest.OperatorFree)

include hhead hrest hfree

/-- A step of evaluation on a list, with something collected, where no operator is an element behind
the head:

* With a result the values of those elements have been collected, `nil` left out, in reverse; if the
  head is `quote`, nothing has.
* If the head, one of the elements or the end of a dotted list fails, nothing has been collected.
* If there is no call, the outcome does not depend on what was collected before.
* A builtin is called with the values of the elements in source order and then what was collected
  before in reverse; variables stand for their bindings at that moment.

Whatever the code is, a collection is only extended. No step inside a step begins with anything but
what that one was given, or with nothing, and no step of an evaluation begins with anything: other
steps could be what they like. -/
theorem evaluateStep_accumulator (nesting : Nat) (r : Registry) (depth : Nat) (acc : List Value)
    (w : World) :
    let s := evaluateStep nesting r code depth acc w
    let first := headOutcome (applyOperator nesting r) head depth (w.record (.visit depth code))
    let later := restValues (applyOperator nesting r) code depth first.world
    (∀ v, s.result = .ok v → head ≠ .op "quote" →
      ∃ vs, later.result = .ok vs ∧ s.collected = acc ++ (present vs).reverse) ∧
    (head = .op "quote" → s.collected = acc) ∧
    (head ≠ .op "quote" → ∀ f, first.result = .error f →
      s.result = .error f ∧ s.collected = acc) ∧
    (head ≠ .op "quote" → ∀ u f, first.result = .ok u → later.result = .error f →
      s.result = .error f ∧ s.collected = acc) ∧
    ((∀ name, head = .op name → name = "quote") →
      ∀ acc', (evaluateStep nesting r code depth acc' w).outcome = s.outcome) ∧
    (∀ name b vs, head = .op name → name ≠ "quote" → later.result = .ok vs →
      r.lookup name = .ok b →
      let args := (present vs ++ acc.reverse).map (resolve later.world.table)
      s.outcome = b.run (reentry (nested nesting) r) args
        (later.world.record (.call depth name args))) ∧
    (∀ any depth acc w, acc <+: (evaluateStep nesting r any depth acc w).collected) ∧
    (∀ alarm any depth acc w, guardedStep (fun c => c == acc || c.isEmpty) alarm nesting r any depth
      acc w = evaluateStep nesting r any depth acc w) ∧
    ∀ alarm any w, guardedNested List.isEmpty alarm (nesting + 1) r any w =
      evaluate nesting r any w := by
  intro s first later
  refine ⟨fun v hv hquote => walk_collected hhead hrest hquote hfree hv, fun hquote => ?_,
    fun hquote f hf => walk_of_head_error hhead hrest hquote hfree hf,
    fun hquote u f hu hf => walk_of_rest_error hhead hrest hquote hfree hu hf,
    fun hop acc' => walk_outcome_congr hhead hrest hfree hop _ depth acc' acc w, ?_,
    walk_extends _, fun alarm any depth acc w => ?_, fun alarm any w => ?_⟩
  · rw [show s = _ from walk_quoted hhead hrest hquote _ depth acc w]
  · intro name b vs hname hquote hvs hb args
    subst hname
    have hcall : s.outcome = applyOperator nesting r name depth (acc ++ (present vs).reverse)
        later.world := walk_call hhead hrest hquote hfree hvs
    rw [hcall, applyOperator, apply, arguments_present, hb]
  · exact guardedStep_eq alarm (by simp) nesting r any depth (by simp) w
  · rw [guardedNested_eq alarm rfl]
    rfl

end Steps

/-- With elements that bind a name, stand for it, are dropped and are quoted, behind a call that was
given two values. -/
theorem evaluateStep_accumulator_effects :
    let r := Registry.ofModules true [.list, .env]
    let rest := Value.ofList [.ofList [.op "set", .sym "x", .sym "b"], .var "x", .nil,
      .ofList [.op "quote", .var "y"]]
    let code := Value.pair (.op "list") rest
    let acc := [.sym "a", .var "x"]
    let s := evaluateStep 1 r code 3 acc (World.start .empty)
    code.car = .ok (.op "list") ∧ code.cdr = .ok rest ∧ rest.OperatorFree ∧
      s.collected = acc ++ [.var "y", .var "x", .sym "b"] ∧
      s.result = .ok (.ofList [.sym "b", .sym "b", .nil, .sym "b", .sym "a"]) := by
  intro r rest code acc s
  have hfree : rest.OperatorFree := by simp [rest, Value.OperatorFree, Value.ofList]
  obtain ⟨hvalue, -, -, -, -, hcall, -⟩ :=
    @evaluateStep_accumulator code _ _ rfl rfl hfree 1 r 3 acc (World.start .empty)
  have houtcome := hcall "list" .list [.sym "b", .var "x", .nil, .var "y"] rfl (by decide) rfl rfl
  have hresult : s.result = .ok (.ofList [.sym "b", .sym "b", .nil, .sym "b", .sym "a"]) :=
    (congrArg Outcome.result houtcome).trans rfl
  obtain ⟨vs, hvs, hcollected⟩ := hvalue _ hresult (by decide)
  obtain rfl : [.sym "b", .var "x", .nil, .var "y"] = vs := Except.ok.inj hvs
  exact ⟨rfl, rfl, hfree, hcollected, hresult⟩

end Evaluator
end SmallLisp
