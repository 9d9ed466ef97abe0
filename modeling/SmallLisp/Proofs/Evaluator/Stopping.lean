import SmallLisp.Proofs.Evaluator.Lockstep

/-!
# SmallLisp.Proofs.Evaluator.Stopping

Two evaluations of the same code from the same world, of which the first may stop early. As far as
it goes it is the second one, so it stops with a failure of its own in a world that the second one
gets past, or both have the same outcome.

* `Outcome.Stops`: the outcomes of two such runs. `Q` relates the world where the first one stopped
  to any world that the second one gets to from there.
* `walk_stops`, `apply_stops`: a walk, given how the calls in it behave, and a call, given how `eval`
  does.
-/

namespace SmallLisp

/-- The first outcome is a failure `f` in a world that stands to that of the second one as `Q` says,
or the outcomes are the same. -/
def Outcome.Stops (f : Failure) (Q : World → World → Prop) (o o' : Outcome) : Prop :=
  (o.result = .error f ∧ Q o.world o'.world) ∨ o' = o

namespace Evaluator

/-- `Outcome.Stops` for steps. -/
def Step.Stops (f : Failure) (Q : World → World → Prop) (s s' : Step) : Prop :=
  (s.result = .error f ∧ Q s.world s'.world) ∨ s' = s

variable {f : Failure} {Q : World → World → Prop}

theorem Step.Stops.outcome {s s' : Step} (h : s.Stops f Q s') : s.outcome.Stops f Q s'.outcome := by
  rcases h with h | rfl
  · exact .inl h
  · exact .inr rfl

theorem headOutcome_stops {call call' : Caller} {head : Value}
    (ih : ∀ depth collected w,
      (walk call head depth collected w).Stops f Q (walk call' head depth collected w))
    (depth : Nat) (w : World) :
    (headOutcome call head depth w).Stops f Q (headOutcome call' head depth w) := by
  cases hl : head.isList with
  | true =>
    rw [headOutcome_of_isList hl, headOutcome_of_isList hl]
    exact (ih _ _ _).outcome
  | false =>
    rw [headOutcome_of_not_isList hl, headOutcome_of_not_isList hl]
    exact .inr rfl

theorem finish_keeps {I : World → Prop} {call : Caller}
    (hcall : ∀ name depth collected w, I w → I (call name depth collected w).world)
    (head value : Value) (depth : Nat) (collected : List Value) {w : World} (hw : I w) :
    I (finish call head value depth collected w).world := by
  cases head with
  | op name => exact hcall name depth collected w hw
  | _ => exact hw

section Calls

variable {call call' : Caller}
  (hvisit : ∀ {u w} depth code, Q u w → Q u (w.record (.visit depth code)))
  (hkeep : ∀ u name depth collected w, Q u w → Q u (call' name depth collected w).world)
  (hcall : ∀ name depth collected w,
    (call name depth collected w).Stops f Q (call' name depth collected w))

include hcall

theorem finish_stops (head value : Value) (depth : Nat) (collected : List Value) (w : World) :
    (finish call head value depth collected w).Stops f Q
      (finish call' head value depth collected w) := by
  cases head with
  | op name =>
    rcases hcall name depth collected w with h | h
    · exact .inl h
    · exact .inr (by simp only [finish, h])
  | _ => exact .inr rfl

include hvisit hkeep

theorem walk_stops (code : Value) :
    ∀ depth collected w,
      (walk call code depth collected w).Stops f Q (walk call' code depth collected w) := by
  induction code with
  | nil => intro depth collected w; exact .inr rfl
  | num x => intro depth collected w; exact .inr rfl
  | sym id => intro depth collected w; exact .inr rfl
  | var id => intro depth collected w; exact .inr rfl
  | op id => intro depth collected w; exact .inr rfl
  | pair head tail ihh iht =>
    intro depth collected w
    by_cases hq : head = .op "quote"
    · subst hq
      rw [walk_pair_quote, walk_pair_quote]
      exact .inr rfl
    rw [walk_pair hq, walk_pair hq]
    rcases headOutcome_stops ihh depth (w.record (.visit depth (.pair head tail)))
      with ⟨h, hQ⟩ | h
    · -- the second run goes on from there
      refine .inl ⟨by simp only [h], ?_⟩
      simp only [h]
      split
      · exact hQ
      · have htail := walk_keeps hvisit (hkeep _) tail (depth + 1) collected hQ
        split
        · exact htail
        · exact finish_keeps (hkeep _) _ _ _ _ htail
    rw [h]
    dsimp only
    split
    · exact .inr rfl
    · rcases iht (depth + 1) collected
        (headOutcome call head depth (w.record (.visit depth (.pair head tail)))).world
        with ⟨ht, hQ⟩ | ht
      · refine .inl ⟨by simp only [ht], ?_⟩
        simp only [ht]
        split
        · exact hQ
        · exact finish_keeps (hkeep _) _ _ _ _ hQ
      rw [ht]
      split
      · exact .inr rfl
      · exact finish_stops hcall _ _ _ _ _
  | last head ihh =>
    intro depth collected w
    by_cases hq : head = .op "quote"
    · subst hq
      rw [walk_last_quote, walk_last_quote]
      exact .inr rfl
    rw [walk_last hq, walk_last hq]
    rcases headOutcome_stops ihh depth (w.record (.visit depth (.last head))) with ⟨h, hQ⟩ | h
    · refine .inl ⟨by simp only [h], ?_⟩
      simp only [h]
      split
      · exact hQ
      · exact finish_keeps (hkeep _) _ _ _ _ hQ
    rw [h]
    dsimp only
    split
    · exact .inr rfl
    · exact finish_stops hcall _ _ _ _ _

end Calls

theorem run_stops {reenter reenter' : Builtin.Reentry}
    (h : ∀ scope code w, (reenter scope code w).Stops f Q (reenter' scope code w))
    (b : Builtin) (args : List Value) (w : World) :
    (b.run reenter args w).Stops f Q (b.run reenter' args w) := by
  cases b with
  | eval scope =>
    rcases args with _ | ⟨code, _ | ⟨_, _⟩⟩
    · exact .inr rfl
    · exact h scope code w
    · exact .inr rfl
  | _ => exact .inr rfl

theorem apply_stops {reenter reenter' : Builtin.Reentry}
    (h : ∀ scope code w, (reenter scope code w).Stops f Q (reenter' scope code w))
    (r : Registry) (name : String) (depth : Nat) (collected : List Value) (w : World) :
    (apply reenter r name depth collected w).Stops f Q (apply reenter' r name depth collected w) := by
  simp only [apply]
  split
  · exact .inr rfl
  · exact run_stops h _ _ _

end Evaluator
end SmallLisp
