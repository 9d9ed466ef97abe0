import SmallLisp.Proofs.Evaluator.History

/-!
# SmallLisp.Proofs.Evaluator.Calls

Which functions an evaluation calls, in a registry that may hold builtins under any names. `eval`
evaluates in the registry that it is called in, as it is then, unless it belongs to the standard
registry: so there is nothing to be called but what that registry has, and what the standard
registry has if an `eval` of that one is there.

* `Registry.Reaches`: the names that can be called.
* `CallsWithin`: the calls on record between two worlds have certain names.
* `callNamed_eval`, `evaluate_calls`: what `eval` does, and what an evaluation calls.
-/

namespace SmallLisp

/-- A name is found in a registry, or in the standard one while an `eval` of that one is in this. -/
def Registry.Reaches (r : Registry) (name : String) : Prop :=
  r.contains name = true ∨
    (∃ foreign, r.lookup foreign = .ok (.eval .standard)) ∧
      (Registry.standard false).contains name = true

/-- Every call on record since `w` has a name with `p`. -/
def CallsWithin (p : String → Prop) (w w' : World) : Prop :=
  ∃ events, w'.trace = w.trace ++ events ∧
    ∀ depth name args, .call depth name args ∈ events → p name

namespace CallsWithin

variable {p : String → Prop} {w w' w'' : World}

theorem of_trace (h : w'.trace = w.trace) : CallsWithin p w w' :=
  ⟨[], by rw [h, List.append_nil], by intro depth name args he; cases he⟩

theorem trans (h : CallsWithin p w w') (h' : CallsWithin p w' w'') : CallsWithin p w w'' := by
  obtain ⟨events, htrace, hp⟩ := h
  obtain ⟨more, htrace', hp'⟩ := h'
  refine ⟨events ++ more, by rw [htrace', htrace, List.append_assoc], fun depth name args he => ?_⟩
  rcases List.mem_append.mp he with he | he
  · exact hp depth name args he
  · exact hp' depth name args he

theorem mono {q : String → Prop} (hpq : ∀ name, p name → q name) (h : CallsWithin p w w') :
    CallsWithin q w w' := by
  obtain ⟨events, htrace, hp⟩ := h
  exact ⟨events, htrace, fun depth name args he => hpq name (hp depth name args he)⟩

theorem event {e : Event} (htrace : w'.trace = w.trace ++ [e])
    (h : ∀ depth name args, e = .call depth name args → p name) : CallsWithin p w w' :=
  ⟨[e], htrace, fun depth name args he => h depth name args (List.mem_singleton.mp he).symm⟩

end CallsWithin

namespace Evaluator

variable {p : String → Prop}

/-- A builtin that does not evaluate records nothing but an exit request. -/
theorem trace_run (reenter : Builtin.Reentry) {b : Builtin} (heval : ∀ scope, b ≠ .eval scope)
    (args : List Value) (w : World) :
    (b.run reenter args w).world.trace = w.trace ∨
      (b.run reenter args w).world.trace = w.trace ++ [.exitRequested] := by
  cases b with
  | list => exact .inl rfl
  | set =>
    left
    rw [Builtin.run, Bindings.world_set]
    split <;> rfl
  | get => exact .inl (by rw [Builtin.run, Bindings.world_get])
  | dump => exact .inl rfl
  | print => cases args <;> exact .inl rfl
  | eval scope => exact absurd rfl (heval scope)
  | exit notifies =>
    cases notifies with
    | true => exact .inr rfl
    | false => exact .inl rfl
  | _ => exact .inl (by rw [Builtin.run, Outcome.world_ofExcept])

/-- No builtin calls another one, except by evaluating. -/
theorem run_calls {reenter : Builtin.Reentry} {b : Builtin}
    (heval : ∀ scope, b = .eval scope → ∀ code w, CallsWithin p w (reenter scope code w).world)
    (args : List Value) (w : World) : CallsWithin p w (b.run reenter args w).world := by
  by_cases hb : ∃ scope, b = .eval scope
  · obtain ⟨scope, rfl⟩ := hb
    rcases args with _ | ⟨code, _ | ⟨_, _⟩⟩
    · exact .of_trace rfl
    · exact heval scope rfl code w
    · exact .of_trace rfl
  · rcases trace_run reenter (not_exists.mp hb) args w with h | h
    · exact .of_trace h
    · exact .event h nofun

/-- A name is looked up before it is called. -/
theorem apply_calls {reenter : Builtin.Reentry} {r : Registry} {name : String}
    (hname : r.contains name = true → p name)
    (heval : ∀ scope, r.lookup name = .ok (.eval scope) →
      ∀ code w, CallsWithin p w (reenter scope code w).world)
    (depth : Nat) (collected : List Value) (w : World) :
    CallsWithin p w (apply reenter r name depth collected w).world := by
  unfold apply
  dsimp only
  split
  · exact .of_trace rfl
  · rename_i b hb
    have hcall : CallsWithin p w
        (w.record (.call depth name (arguments w.table collected))) := by
      refine .event rfl fun _ _ _ he => ?_
      cases he
      exact hname (Registry.contains_iff.mpr ⟨b, hb⟩)
    exact hcall.trans (run_calls (fun scope heq => heval scope (heq ▸ hb)) _ _)

theorem nested_calls (n : Nat) :
    ∀ r code w, CallsWithin (Registry.Reaches r) w (nested n r code w).world := by
  induction n with
  | zero => intro r code w; exact .of_trace rfl
  | succ n ih =>
    intro r code w
    refine walk_keeps (I := CallsWithin (Registry.Reaches r) w) ?_ ?_ code 0 [] (.of_trace rfl)
    · intro u depth v hu
      exact hu.trans (.event rfl nofun)
    · intro name depth collected u hu
      refine hu.trans (apply_calls .inl (fun scope hscope => ?_) depth collected u)
      cases scope with
      | own => exact ih r
      | standard =>
        intro v w
        refine (ih (Registry.standard false) v w).mono fun called hcalled => .inr ⟨⟨name, hscope⟩, ?_⟩
        rcases hcalled with h | ⟨-, h⟩ <;> exact h

theorem evaluate_calls (nesting : Nat) (r : Registry) (code : Value) (w : World) :
    CallsWithin r.Reaches w (evaluate nesting r code w).world :=
  nested_calls (nesting + 1) r code w

/-- `eval` evaluates in the registry in which it is called, whatever that has by then. -/
theorem callNamed_eval {r : Registry} {name : String} (h : r.lookup name = .ok (.eval .own))
    (nesting : Nat) (code : Value) (w : World) :
    callNamed (nesting + 1) r name [code] w = evaluate nesting r code w := by
  rw [callNamed, h]
  rfl

end Evaluator
end SmallLisp
