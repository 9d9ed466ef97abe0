import SmallLisp.Proofs.Evaluator.Nesting

/-!
# SmallLisp.Proofs.Evaluator.Direct

Evaluation without an accumulator. `Direct.chain` yields the value of a chain together with the
list of the values collected along it, which is in source order from the start: the rest of a chain
puts its value in front of what it has collected itself. No list is passed down, extended or
reversed, and no trace is kept.

* `chain_matches`: on an empty collection the walk yields what `Direct.chain` yields, in reverse.
* `evaluate_eq_direct`: evaluation and direct evaluation have the same outcome, trace aside, and
  the one goes on for ever exactly if the other does.
-/

namespace SmallLisp

def World.untraced (w : World) : World :=
  { w with trace := [] }

/-- An outcome without the trace of its world: the result, the table, the text printed and the
number of exit requests. -/
def Outcome.untraced (o : Outcome) : Outcome :=
  ⟨o.result, o.world.untraced⟩

namespace Direct

/-- How a named operator is called with arguments in source order. -/
abbrev Caller := String → List Value → World → Outcome

/-- What a chain yields: its value and the values collected along it, and the world. -/
structure Yield where
  result : Except Failure (Value × List Value)
  world : World

def Yield.outcome (y : Yield) : Outcome :=
  ⟨y.result.map Prod.fst, y.world⟩

/-- What is quoted, if it is exactly one element. -/
def quoted (rest : Value) : Except Failure (Value × List Value) :=
  match rest.elements with
  | [v] => .ok (v, [])
  | _ => .error (.error (.wrongCount .quote))

/-- Ends a chain with the arguments collected behind its head: an operator is called with them,
any other head has yielded its value. -/
def close (call : Caller) (head value : Value) (args : List Value) (w : World) : Yield :=
  match head with
  | .op name =>
    let o := call name args w
    ⟨o.result.map (·, args), o.world⟩
  | _ => ⟨.ok (value, args), w⟩

def chain (call : Caller) : Value → World → Yield
  | .nil, w => ⟨.ok (.nil, []), w⟩
  | .num x, w => ⟨.error (.error (.notCode (.num x))), w⟩
  | .sym id, w => ⟨.error (.error (.notCode (.sym id))), w⟩
  | .var id, w => ⟨.error (.error (.notCode (.var id))), w⟩
  | .op id, w => ⟨.error (.error (.notCode (.op id))), w⟩
  | .pair head rest, w =>
    if head = .op "quote" then ⟨quoted rest, w⟩
    else
      let first := if head.isList then (chain call head w).outcome else .ok head w
      match first.result with
      | .error f => ⟨.error f, first.world⟩
      | .ok value =>
        let y := chain call rest first.world
        match y.result with
        | .error f => ⟨.error f, y.world⟩
        | .ok (v, later) => close call head value (if v = .nil then later else v :: later) y.world
  | .last head, w =>
    if head = .op "quote" then ⟨quoted .nil, w⟩
    else
      let first := if head.isList then (chain call head w).outcome else .ok head w
      match first.result with
      | .error f => ⟨.error f, first.world⟩
      | .ok value => close call head value [] first.world

def headOutcome (call : Caller) (head : Value) (w : World) : Outcome :=
  if head.isList then (chain call head w).outcome else .ok head w

theorem outcome_close_operator (call : Caller) (name : String) (value : Value)
    (args : List Value) (w : World) :
    (close call (.op name) value args w).outcome = call name args w := by
  simp only [close, Yield.outcome]
  rcases call name args w with ⟨_ | _, _⟩ <;> rfl

theorem chain_pair {head : Value} (h : head ≠ .op "quote") (call : Caller) (rest : Value)
    (w : World) : chain call (.pair head rest) w =
      let first := headOutcome call head w
      match first.result with
      | .error f => ⟨.error f, first.world⟩
      | .ok value =>
        let y := chain call rest first.world
        match y.result with
        | .error f => ⟨.error f, y.world⟩
        | .ok (v, later) =>
          close call head value (if v = .nil then later else v :: later) y.world := by
  rw [chain, if_neg h]; rfl

theorem chain_last {head : Value} (h : head ≠ .op "quote") (call : Caller) (w : World) :
    chain call (.last head) w =
      let first := headOutcome call head w
      match first.result with
      | .error f => ⟨.error f, first.world⟩
      | .ok value => close call head value [] first.world := by
  rw [chain, if_neg h]; rfl

/-- Calls the builtin with a name; every variable among the arguments stands for its binding. -/
def invoke (reenter : Builtin.Reentry) (r : Registry) : Caller := fun name args w =>
  match r.lookup name with
  | .error e => .fail e w
  | .ok b => b.run reenter (args.map (Evaluator.resolve w.table)) w

/-- Direct evaluation with at most `n` evaluations inside one another, itself among them. -/
def nested : Nat → Evaluator.Evaluation
  | 0 => fun _ _ w => ⟨.error .exhausted, w⟩
  | n + 1 => fun r code w =>
    (chain (invoke (Evaluator.reentry (nested n) r) r) code w).outcome

/-- Direct evaluation of code in a registry; `nesting` bounds how many evaluations by `eval` may be
inside one another. -/
def evaluate (nesting : Nat) : Evaluator.Evaluation :=
  nested (nesting + 1)

/-! ## Worlds that differ in their traces only -/

def Traceless (w w' : World) : Prop := w.untraced = w'.untraced

theorem Traceless.record {w w' : World} (h : Traceless w w') (e : Event) :
    Traceless (w.record e) w' := h

theorem Traceless.table {w w' : World} (h : Traceless w w') : w.table = w'.table :=
  (World.mk.inj h).1

/-- Nothing that builtins do depends on the trace. -/
theorem traceless_coupling : Coupling (fun _ => True) Traceless where
  hereditary := ⟨trivial, fun _ => trivial, fun _ _ => by simp, fun _ => id⟩
  get := by intro w w' id h _; exact ⟨by rw [h.table], trivial⟩
  bind := by
    intro w w' id v h _ _
    obtain ⟨ht, ho, he, _⟩ := World.mk.inj h
    simp [Traceless, World.untraced, World.bind, ht, ho, he]
  print := by
    intro w w' text h
    obtain ⟨ht, ho, he, _⟩ := World.mk.inj h
    simp [Traceless, World.untraced, World.print, ht, ho, he]
  requestExit := by
    intro w w' h
    obtain ⟨ht, ho, he, _⟩ := World.mk.inj h
    simp [Traceless, World.untraced, World.requestExit, ht, ho, he]
  visit := by intro w w' code depth h _; exact h
  call := by intro w w' name args depth h _ _; exact h

/-- Outcomes that differ in their traces only. -/
abbrev Alike : Outcome → Outcome → Prop := Outcome.Paired (fun _ => True) Traceless

theorem Alike.untraced {o o' : Outcome} (h : Alike o o') : o.untraced = o'.untraced := by
  simp only [Outcome.untraced, h.result, show o.world.untraced = o'.world.untraced from h.world]

/-! ## The walk against the chain -/

/-- A step that started with nothing collected, and what the chain yields. -/
structure Matches (s : Evaluator.Step) (y : Yield) : Prop where
  outcome : Alike s.outcome y.outcome
  collected : ∀ {v args}, y.result = .ok (v, args) → s.collected = args.reverse

theorem collect_reverse (args : List Value) (v : Value) :
    Evaluator.collect args.reverse v = (if v = .nil then args else v :: args).reverse := by
  cases v <;> simp [Evaluator.collect]

theorem quote_matches (rest : Value) {w w' : World} (hw : Traceless w w') :
    Matches ⟨Evaluator.quote rest, [], w⟩ ⟨quoted rest, w'⟩ := by
  refine ⟨⟨?_, fun _ => trivial, hw⟩, ?_⟩
  · simp only [Evaluator.Step.outcome, Yield.outcome, Evaluator.quote, quoted]
    rcases rest.elements with _ | ⟨v, _ | ⟨_, _⟩⟩ <;> rfl
  · intro v args h
    simp only [quoted] at h
    split at h
    · cases h; rfl
    · cases h

section Calls

variable {call : Evaluator.Caller} {direct : Caller}

theorem headOutcome_alike {head : Value}
    (ih : ∀ depth w w', Traceless w w' →
      Matches (Evaluator.walk call head depth [] w) (chain direct head w'))
    (depth : Nat) {w w' : World} (hw : Traceless w w') :
    Alike (Evaluator.headOutcome call head depth w) (headOutcome direct head w') := by
  cases hl : head.isList with
  | true =>
    rw [Evaluator.headOutcome_of_isList hl, headOutcome, if_pos hl]
    exact (ih _ _ _ hw).outcome
  | false =>
    rw [Evaluator.headOutcome_of_not_isList hl, headOutcome, if_neg (by simp [hl])]
    exact ok_paired trivial hw

variable (hcall : ∀ name depth args w w', Traceless w w' →
    Alike (call name depth args.reverse w) (direct name args w'))

include hcall

theorem close_matches (head value : Value) (depth : Nat) (args : List Value) {w w' : World}
    (hw : Traceless w w') :
    Matches (Evaluator.finish call head value depth args.reverse w)
      (close direct head value args w') := by
  cases head with
  | op name =>
    have h := hcall name depth args w w' hw
    simp only [Evaluator.finish, close]
    refine ⟨⟨?_, fun _ => trivial, h.world⟩, ?_⟩
    · simp only [Evaluator.Step.outcome, Yield.outcome, h.result]
      cases (direct name args w').result <;> rfl
    · intro v args' he
      cases hr : (direct name args w').result with
      | error f => rw [hr] at he; cases he
      | ok u => rw [hr] at he; cases he; rfl
  | _ => exact ⟨ok_paired trivial hw, by rintro _ _ ⟨⟩; rfl⟩

theorem chain_matches (code : Value) :
    ∀ depth w w', Traceless w w' →
      Matches (Evaluator.walk call code depth [] w) (chain direct code w') := by
  induction code with
  | nil => intro depth w w' hw; exact ⟨ok_paired trivial hw, by rintro _ _ ⟨⟩; rfl⟩
  | num x => intro depth w w' hw; exact ⟨fail_paired _ hw, by rintro _ _ ⟨⟩⟩
  | sym id => intro depth w w' hw; exact ⟨fail_paired _ hw, by rintro _ _ ⟨⟩⟩
  | var id => intro depth w w' hw; exact ⟨fail_paired _ hw, by rintro _ _ ⟨⟩⟩
  | op id => intro depth w w' hw; exact ⟨fail_paired _ hw, by rintro _ _ ⟨⟩⟩
  | pair head rest ihh ihr =>
    intro depth w w' hw
    by_cases hq : head = .op "quote"
    · subst hq
      rw [Evaluator.walk_pair_quote, chain, if_pos rfl]
      exact quote_matches rest hw
    rw [Evaluator.walk_pair hq, chain_pair hq]
    have hf := headOutcome_alike ihh depth (hw.record (.visit depth (.pair head rest)))
    dsimp only
    rw [hf.result]
    cases hv : (headOutcome direct head w').result with
    | error f => exact ⟨⟨rfl, fun _ => trivial, hf.world⟩, by rintro _ _ ⟨⟩⟩
    | ok value =>
      have hs := ihr (depth + 1) _ _ hf.world
      have hres := hs.outcome.result
      simp only [Evaluator.Step.outcome, Yield.outcome] at hres
      dsimp only
      rw [hres]
      cases hy : (chain direct rest (headOutcome direct head w').world).result with
      | error f => exact ⟨⟨rfl, fun _ => trivial, hs.outcome.world⟩, by rintro _ _ ⟨⟩⟩
      | ok yielded =>
        obtain ⟨v, later⟩ := yielded
        simp only [Except.map, hs.collected hy, collect_reverse]
        exact close_matches hcall head value depth _ hs.outcome.world
  | last head ihh =>
    intro depth w w' hw
    by_cases hq : head = .op "quote"
    · subst hq
      rw [Evaluator.walk_last_quote, chain, if_pos rfl]
      exact quote_matches .nil hw
    rw [Evaluator.walk_last hq, chain_last hq]
    have hf := headOutcome_alike ihh depth (hw.record (.visit depth (.last head)))
    dsimp only
    rw [hf.result]
    cases hv : (headOutcome direct head w').result with
    | error f => exact ⟨⟨rfl, fun _ => trivial, hf.world⟩, by rintro _ _ ⟨⟩⟩
    | ok value => exact close_matches hcall head value depth [] hf.world

end Calls

/-! ## Evaluation against direct evaluation -/

theorem invoke_alike {reenter reenter' : Builtin.Reentry}
    (hre : ∀ scope code w w', True → Traceless w w' →
      Alike (reenter scope code w) (reenter' scope code w'))
    (r : Registry) (name : String) (depth : Nat) (args : List Value) {w w' : World}
    (hw : Traceless w w') :
    Alike (Evaluator.apply reenter r name depth args.reverse w)
      (invoke reenter' r name args w') := by
  simp only [Evaluator.apply, invoke, Evaluator.arguments, List.reverse_reverse, hw.table]
  cases r.lookup name with
  | error e => exact fail_paired e hw
  | ok b =>
    have hlist : ListAlike Traceless := fun h => by rw [h.table]
    exact run_paired traceless_coupling hre (fun _ => hlist) (fun _ _ => trivial) hw

theorem nested_alike (n : Nat) : ∀ r code w w', Traceless w w' →
    Alike (Evaluator.nested n r code w) (nested n r code w') := by
  induction n with
  | zero => intro r code w w' hw; exact ⟨rfl, fun _ => trivial, hw⟩
  | succ n ih =>
    intro r code w w' hw
    exact (chain_matches (fun name depth args w w' hw => invoke_alike
      (fun scope code w w' _ hw => ih (r.inScope scope) code w w' hw) r name depth args hw)
      code 0 w w' hw).outcome

/-- Evaluation, which collects arguments in reverse in an accumulator shared by a whole chain, has
the same outcome as direct evaluation, which has no accumulator: the same value or the same error,
the same table, the same text printed and as many exit requests, under every bound on the nesting of
`eval`; and it goes on for ever exactly if direct evaluation does. -/
theorem evaluate_eq_direct (r : Registry) (code : Value) (w : World) :
    (∀ nesting, (SmallLisp.evaluate nesting r code w).untraced =
      (evaluate nesting r code w).untraced) ∧
    (Evaluator.Diverges SmallLisp.evaluate r code w ↔ Evaluator.Diverges evaluate r code w) := by
  have h : ∀ nesting, Alike (SmallLisp.evaluate nesting r code w) (evaluate nesting r code w) :=
    fun nesting => nested_alike (nesting + 1) r code w w rfl
  refine ⟨fun nesting => (h nesting).untraced, ?_⟩
  constructor
  · intro hd nesting; rw [← (h nesting).result]; exact hd nesting
  · intro hd nesting; rw [(h nesting).result]; exact hd nesting

end Direct
end SmallLisp
