import SmallLisp.Evaluator

/-!
# SmallLisp.Proofs.Evaluator.Walk

The walk over a list, written out once for the inductions over it: a quoted form is not walked, and
any other list is its head first (`headOutcome`), then its rest, then the call of an operator. An
argument that is no variable is handed over as it is (`resolve_of_ne_var`).
-/

namespace SmallLisp
namespace Evaluator

/-- What the head of a list yields: a list is walked with a collection of its own, any other head
stands for itself. -/
def headOutcome (call : Caller) (head : Value) (depth : Nat) (w : World) : Outcome :=
  if head.isList then (walk call head (depth + 1) [] w).outcome else .ok head w

theorem headOutcome_of_isList {call : Caller} {head : Value} (h : head.isList = true) (depth : Nat)
    (w : World) : headOutcome call head depth w = (walk call head (depth + 1) [] w).outcome := by
  simp [headOutcome, h]

theorem headOutcome_of_not_isList {call : Caller} {head : Value} (h : head.isList = false)
    (depth : Nat) (w : World) : headOutcome call head depth w = .ok head w := by
  simp [headOutcome, h]

theorem walk_pair_quote (call : Caller) (tail : Value) (depth : Nat) (collected : List Value)
    (w : World) : walk call (.pair (.op "quote") tail) depth collected w =
      ⟨quote tail, collected, w.record (.visit depth (.pair (.op "quote") tail))⟩ := by
  simp [walk]

theorem walk_last_quote (call : Caller) (depth : Nat) (collected : List Value) (w : World) :
    walk call (.last (.op "quote")) depth collected w =
      ⟨quote .nil, collected, w.record (.visit depth (.last (.op "quote")))⟩ := by
  simp [walk]

theorem walk_pair {head : Value} (h : head ≠ .op "quote") (call : Caller) (tail : Value)
    (depth : Nat) (collected : List Value) (w : World) :
    walk call (.pair head tail) depth collected w =
      let first := headOutcome call head depth (w.record (.visit depth (.pair head tail)))
      match first.result with
      | .error f => ⟨.error f, collected, first.world⟩
      | .ok value =>
        let s := walk call tail (depth + 1) collected first.world
        match s.result with
        | .error f => ⟨.error f, s.collected, s.world⟩
        | .ok v => finish call head value depth (collect s.collected v) s.world := by
  rw [walk, if_neg h]; rfl

/-- A form with an operator is its arguments first, then the call. -/
theorem walk_operator {name : String} (h : name ≠ "quote") (call : Caller) (tail : Value)
    (depth : Nat) (collected : List Value) (w : World) :
    walk call (.pair (.op name) tail) depth collected w =
      let s := walk call tail (depth + 1) collected (w.record (.visit depth (.pair (.op name) tail)))
      match s.result with
      | .error f => ⟨.error f, s.collected, s.world⟩
      | .ok v => finish call (.op name) (.op name) depth (collect s.collected v) s.world := by
  rw [walk_pair (by simpa using h)]; rfl

theorem walk_last {head : Value} (h : head ≠ .op "quote") (call : Caller) (depth : Nat)
    (collected : List Value) (w : World) :
    walk call (.last head) depth collected w =
      let first := headOutcome call head depth (w.record (.visit depth (.last head)))
      match first.result with
      | .error f => ⟨.error f, collected, first.world⟩
      | .ok value => finish call head value depth collected first.world := by
  rw [walk, if_neg h]; rfl

/-- Only an operator has anything done at the end of a form. -/
theorem finish_of_ne_op {head : Value} (h : ∀ name, head ≠ .op name) (call : Caller) (value : Value)
    (depth : Nat) (collected : List Value) (w : World) :
    finish call head value depth collected w = ⟨.ok value, collected, w⟩ := by
  cases head with
  | op name => exact absurd rfl (h name)
  | _ => rfl

theorem resolve_of_ne_var {v : Value} (h : ∀ id, v ≠ .var id) (t : Table) : resolve t v = v := by
  cases v with
  | var id => exact absurd rfl (h id)
  | _ => rfl

end Evaluator
end SmallLisp
