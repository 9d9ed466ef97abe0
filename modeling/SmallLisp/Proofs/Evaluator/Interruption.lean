import SmallLisp.Interrupt
import SmallLisp.Proofs.Evaluator.Calls
import SmallLisp.Proofs.Evaluator.Failures
import SmallLisp.Proofs.Evaluator.Stopping

/-!
# SmallLisp.Proofs.Evaluator.Interruption

Evaluation with an interrupt behind so many calls, against evaluation without one. If there are
fewer calls the two are the same; otherwise the first one stops when exactly so many calls are on
record, in a world that the second one gets past. As the world of an interrupted evaluation has a
history of its own (`nestedUntil_history`), what it leaves is what the events so far have done.

* `CutBefore`: a world where an interrupt has arrived, and one that evaluation gets to from there.
* `nestedUntil_stops`, `callCount_nestedUntil`: where an interrupted evaluation stops.
* `nestedUntil_of_lt`, `nestedUntil_of_le`: an interrupt that comes too late, and one that does not.
* `nested_ne_interrupted`: nothing but an interrupt from outside interrupts.
-/

namespace SmallLisp

@[simp] theorem callCount_append (trace more : List Event) :
    callCount (trace ++ more) = callCount trace + callCount more :=
  List.countP_append

theorem callCount_le_of_prefix {trace trace' : List Event} (h : trace <+: trace') :
    callCount trace ≤ callCount trace' :=
  h.sublist.countP_le

theorem CallsWithin.isPrefix {p : String → Prop} {w w' : World} (h : CallsWithin p w w') :
    w.trace <+: w'.trace := by
  obtain ⟨events, htrace, -⟩ := h
  exact ⟨events, htrace.symm⟩

/-- An interrupt has arrived in the first world, and its record goes on in the second one. -/
def CutBefore (moment : Nat) (w w' : World) : Prop :=
  moment ≤ callCount w.trace ∧ w.trace <+: w'.trace

namespace Evaluator

theorem trace_isPrefix_apply (n : Nat) (r : Registry) (name : String) (depth : Nat)
    (collected : List Value) (w : World) :
    w.trace <+: (apply (reentry (nested n) r) r name depth collected w).world.trace := by
  have hcalls : CallsWithin (fun _ => True) w
      (apply (reentry (nested n) r) r name depth collected w).world :=
    apply_calls (fun _ => trivial) (fun scope _ code w =>
      (nested_calls n (r.inScope scope) code w).mono fun _ _ => trivial) depth collected w
  exact hcalls.isPrefix

/-- An interrupted evaluation has done nothing that evaluation does not do. -/
theorem nestedUntil_stops (moment n : Nat) : ∀ r code w,
    (nestedUntil moment n r code w).Stops .interrupted (CutBefore moment) (nested n r code w) := by
  induction n with
  | zero => intro r code w; exact .inr rfl
  | succ n ih =>
    intro r code w
    refine (walk_stops (fun depth code h => ⟨h.1, h.2.trans (List.prefix_append _ _)⟩)
      (fun u name depth collected w h =>
        ⟨h.1, h.2.trans (trace_isPrefix_apply n r name depth collected w)⟩)
      (fun name depth collected w => ?_) code 0 [] w).outcome
    unfold heed
    split
    · exact apply_stops (fun scope code w => ih (r.inScope scope) code w) r name depth collected w
    · rename_i harrived
      exact .inl ⟨rfl, Nat.le_of_not_lt harrived, trace_isPrefix_apply n r name depth collected w⟩

/-! ## The calls on record -/

variable {moment : Nat}

theorem callCount_run {reenter : Builtin.Reentry}
    (hre : ∀ scope code w, callCount w.trace ≤ moment →
      callCount (reenter scope code w).world.trace ≤ moment)
    (b : Builtin) (args : List Value) {w : World} (hw : callCount w.trace ≤ moment) :
    callCount (b.run reenter args w).world.trace ≤ moment := by
  by_cases hb : ∃ scope, b = .eval scope
  · obtain ⟨scope, rfl⟩ := hb
    rcases args with _ | ⟨code, _ | ⟨_, _⟩⟩
    · exact hw
    · exact hre scope code w hw
    · exact hw
  · rcases trace_run reenter (not_exists.mp hb) args w with h | h
    · rwa [h]
    · rw [h, callCount_append]
      exact hw

/-- A call that begins before the interrupt is the last one at most. -/
theorem callCount_apply {reenter : Builtin.Reentry}
    (hre : ∀ scope code w, callCount w.trace ≤ moment →
      callCount (reenter scope code w).world.trace ≤ moment)
    (r : Registry) (name : String) (depth : Nat) (collected : List Value) {w : World}
    (hw : callCount w.trace < moment) :
    callCount (apply reenter r name depth collected w).world.trace ≤ moment := by
  unfold apply
  dsimp only
  split
  · exact Nat.le_of_lt hw
  · refine callCount_run hre _ _ ?_
    rw [World.record, callCount_append]
    exact hw

theorem callCount_nestedUntil (n : Nat) : ∀ r code w, callCount w.trace ≤ moment →
    callCount (nestedUntil moment n r code w).world.trace ≤ moment := by
  induction n with
  | zero => intro r code w hw; exact hw
  | succ n ih =>
    intro r code w hw
    refine walk_keeps (I := fun u => callCount u.trace ≤ moment) ?_ ?_ code 0 [] hw
    · intro u depth code hu
      rw [World.record, callCount_append]
      exact hu
    · intro name depth collected u hu
      unfold heed
      split
      · rename_i hearly
        exact callCount_apply (fun scope => ih (r.inScope scope)) r name depth collected hearly
      · exact hu

section Arrival

variable {n : Nat} {r : Registry} {code : Value} {w : World}

theorem nestedUntil_of_lt (h : callCount (nested n r code w).world.trace < moment) :
    nestedUntil moment n r code w = nested n r code w := by
  rcases nestedUntil_stops moment n r code w with ⟨-, hcut, hprefix⟩ | hsame
  · have hle := callCount_le_of_prefix hprefix
    omega
  · exact hsame.symm

/-- If there are enough calls, the interrupt is met with exactly so many on record, unless nothing
but the end comes behind them. -/
theorem nestedUntil_of_le (hw : callCount w.trace ≤ moment)
    (h : moment ≤ callCount (nested n r code w).world.trace) :
    callCount (nestedUntil moment n r code w).world.trace = moment ∧
      (nestedUntil moment n r code w).world.trace <+: (nested n r code w).world.trace := by
  have hle := callCount_nestedUntil n r code w hw
  rcases nestedUntil_stops moment n r code w with ⟨-, hcut, hprefix⟩ | hsame
  · exact ⟨Nat.le_antisymm hle hcut, hprefix⟩
  · rw [hsame] at h ⊢
    exact ⟨Nat.le_antisymm hle h, List.prefix_refl _⟩

end Arrival

/-- Evaluation is never interrupted by itself. -/
theorem nested_ne_interrupted (n : Nat) :
    ∀ r code w, FailsWithin (· ≠ .interrupted) (nested n r code w).result := by
  induction n with
  | zero =>
    have hdeep : Failure.exhausted ≠ .interrupted := nofun
    intro r code w
    exact failsWithin_error hdeep
  | succ n ih =>
    intro r code w
    have herror : ∀ e : Error, e.OfCall → Failure.error e ≠ .interrupted := fun _ _ => nofun
    refine walk_fails herror (.inr fun _ => nofun) (fun name _ => ?_) 0 [] w
    exact apply_fails herror fun scope _ => ih (r.inScope scope)

theorem nestedUntil_history {notifies : Bool} {modules : List Module} (n : Nat) :
    ∀ code w, ∃ es, History notifies w es
      (nestedUntil moment n (Registry.ofModules notifies modules) code w).world := by
  induction n with
  | zero => intro code w; exact ⟨[], .refl⟩
  | succ n ih =>
    intro code w
    refine walk_keeps (I := fun u => ∃ es, History notifies w es u) ?_ ?_ code 0 [] ⟨[], .refl⟩
    · rintro u depth code ⟨es, hes⟩
      exact ⟨_, hes.append (.visit u depth code)⟩
    · rintro name depth collected u ⟨es, hes⟩
      unfold heed
      split
      · let registry := Registry.ofModules notifies modules
        obtain ⟨es', hes'⟩ : ∃ es', History notifies u es' (apply
            (reentry (nestedUntil moment n) registry) registry name depth collected u).world :=
          apply_history ih name depth collected u
        exact ⟨_, hes.append hes'⟩
      · exact ⟨es, hes⟩

end Evaluator
end SmallLisp
