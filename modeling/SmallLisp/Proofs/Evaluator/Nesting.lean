import SmallLisp.Proofs.Evaluator.Stopping

/-!
# SmallLisp.Proofs.Evaluator.Nesting

Only `eval` can make evaluation go on for ever, so a bound on the nesting of `eval` is all that
keeps it total. The bound does not shape outcomes: an evaluation that ended without meeting its
bound has the same outcome under every greater one (`evaluate_of_le`).

* `Diverges`: evaluation meets every bound.
* `Outcome.Refines`: how the outcome under a bound stands to that under a greater one.
* `walk_refines`, `apply_refines`: a step and a call keep that relation if the calls in them do.
-/

namespace SmallLisp

/-- The outcomes are the same, unless the first one met the bound. -/
def Outcome.Refines (o o' : Outcome) : Prop :=
  o.result = .error .exhausted ∨ o' = o

theorem Outcome.refines_iff_stops {o o' : Outcome} :
    o.Refines o' ↔ o.Stops .exhausted (fun _ _ => True) o' := by
  rw [Refines, Stops, and_true]

theorem Outcome.refines_refl (o : Outcome) : o.Refines o := .inr rfl

theorem Outcome.Refines.trans {o o' o'' : Outcome} (h : o.Refines o') (h' : o'.Refines o'') :
    o.Refines o'' := by
  rcases h with h | h
  · exact .inl h
  · subst h; exact h'

namespace Evaluator

/-- Evaluation meets every bound on the nesting of `eval`. -/
def Diverges (evaluation : Nat → Evaluation) (r : Registry) (code : Value) (w : World) : Prop :=
  ∀ nesting, (evaluation nesting r code w).result = .error .exhausted

/-- `Outcome.Refines` for steps. -/
def Step.Refines (s s' : Step) : Prop :=
  s.result = .error .exhausted ∨ s' = s

theorem Step.Refines.outcome {s s' : Step} (h : s.Refines s') : s.outcome.Refines s'.outcome := by
  rcases h with h | h
  · exact .inl h
  · exact .inr (h ▸ rfl)

theorem walk_refines {call call' : Caller}
    (hcall : ∀ name depth collected w,
      (call name depth collected w).Refines (call' name depth collected w))
    (code : Value) (depth : Nat) (collected : List Value) (w : World) :
    (walk call code depth collected w).Refines (walk call' code depth collected w) := by
  have hstops := walk_stops (Q := fun _ _ => True) (fun _ _ => id) (fun _ _ _ _ _ => id)
    (fun name depth collected w => Outcome.refines_iff_stops.mp (hcall name depth collected w))
    code depth collected w
  exact hstops.imp_left And.left

theorem apply_refines {reenter reenter' : Builtin.Reentry}
    (h : ∀ scope code w, (reenter scope code w).Refines (reenter' scope code w))
    (r : Registry) (name : String) (depth : Nat) (collected : List Value) (w : World) :
    (apply reenter r name depth collected w).Refines (apply reenter' r name depth collected w) :=
  Outcome.refines_iff_stops.mpr (apply_stops
    (fun scope code w => Outcome.refines_iff_stops.mp (h scope code w)) r name depth collected w)

theorem nested_refines_succ (n : Nat) :
    ∀ r code w, (nested n r code w).Refines (nested (n + 1) r code w) := by
  induction n with
  | zero => intro r code w; exact .inl rfl
  | succ n ih =>
    intro r code w
    exact (walk_refines (apply_refines (fun scope code w => ih (r.inScope scope) code w) r)
      code 0 [] w).outcome

theorem nested_refines {n m : Nat} (h : n ≤ m) (r : Registry) (code : Value) (w : World) :
    (nested n r code w).Refines (nested m r code w) := by
  induction h with
  | refl => exact Outcome.refines_refl _
  | step _ ih => exact ih.trans (nested_refines_succ _ r code w)

/-- A greater bound changes no outcome that was reached within the bound. -/
theorem evaluate_of_le {n m : Nat} (h : n ≤ m) {r : Registry} {code : Value} {w : World}
    (hfin : (evaluate n r code w).result ≠ .error .exhausted) :
    evaluate m r code w = evaluate n r code w := by
  rcases nested_refines (Nat.succ_le_succ h) r code w with he | he
  · exact absurd he hfin
  · exact he

end Evaluator
end SmallLisp
