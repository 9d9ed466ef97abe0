import SmallLisp.Proofs.Evaluator.Lockstep
import SmallLisp.Proofs.Registry.Modules

/-!
# SmallLisp.Proofs.Evaluator.History

What an evaluation does to its world is on record. The trace names every call of a builtin with its
arguments, and nothing but such a call changes the table or prints: a world is the one the
evaluation started in with the events since then replayed. As this holds wherever an evaluation
stops, the world at any moment of a run is the replay of what had been recorded by then.

* `World.replay`: the world after some events; `Table.replay` is the part of it that `set` writes.
* `Resolved`: every argument on record stands for itself or is what the table of that moment says.
* `History`: one world comes from another by some events.
* `evaluate_history`: evaluation in a registry filled from modules, whatever becomes of it.
-/

namespace SmallLisp

/-- The binding that `set` makes of its arguments: a symbol and a value that is stored. -/
def Bindings.stored? : List Value → Option (String × Value)
  | [.sym id, v] =>
    match unstorable? v with
    | none => some (id, v)
    | some _ => none
  | _ => none

namespace Event

/-- The binding that an event makes: a call of `set` that completes makes one. -/
def binding? : Event → Option (String × Value)
  | .call _ name args => if name = "set" then Bindings.stored? args else none
  | _ => none

/-- The text that a call on record prints, where this is the table. -/
def printed (t : Table) : Event → String
  | .call _ name args =>
    if name = "dump" then t.listing
    else if name = "print" ∧ args ≠ [] then
      String.intercalate ", " (args.map Value.render) ++ "\n"
    else ""
  | _ => ""

/-- The arguments of a call on record. -/
def arguments : Event → List Value
  | .call _ _ args => args
  | _ => []

/-- Whether an event is a call of a builtin with a name. -/
def calls (name : String) : Event → Bool
  | .call _ n _ => n == name
  | _ => false

theorem binding?_eq_some {e : Event} {name : String} {v : Value} (h : e.binding? = some (name, v)) :
    e.calls "set" = true ∧ .sym name ∈ e.arguments ∧ v ∈ e.arguments ∧
      Bindings.unstorable? v = none := by
  cases e with
  | call depth n args =>
    simp only [binding?] at h
    split at h
    · rename_i hset
      unfold Bindings.stored? at h
      split at h
      · split at h <;> cases h
        rename_i hstored
        exact ⟨by simp [calls, hset], by simp [arguments], by simp [arguments], hstored⟩
      · cases h
    · cases h
  | _ => cases h

end Event

/-- The table after an event. -/
def Table.after (t : Table) (e : Event) : Table :=
  match e.binding? with
  | some (name, v) => t.bind name v
  | none => t

/-- The table after some events, in order. -/
def Table.replay (t : Table) (events : List Event) : Table :=
  events.foldl Table.after t

namespace World

/-- The world after an event. -/
def after (w : World) (e : Event) : World where
  table := w.table.after e
  output := w.output ++ e.printed w.table
  exits := if e = .exitRequested then w.exits + 1 else w.exits
  trace := w.trace ++ [e]

/-- The world after some events, in order. -/
def replay (w : World) (events : List Event) : World :=
  events.foldl after w

theorem replay_append (w : World) (es es' : List Event) :
    w.replay (es ++ es') = (w.replay es).replay es' :=
  List.foldl_append

@[simp] theorem replay_nil (w : World) : w.replay [] = w := rfl

@[simp] theorem replay_cons (w : World) (e : Event) (es : List Event) :
    w.replay (e :: es) = (w.after e).replay es := rfl

@[simp] theorem trace_replay (w : World) (es : List Event) :
    (w.replay es).trace = w.trace ++ es := by
  induction es generalizing w with
  | nil => simp
  | cons e es ih => simp [ih, after]

@[simp] theorem table_replay (w : World) (es : List Event) :
    (w.replay es).table = w.table.replay es := by
  induction es generalizing w with
  | nil => rfl
  | cons e es ih => exact ih (w.after e)

/-- Only `.exitRequested` counts as an exit request. -/
theorem exits_replay (w : World) (es : List Event) :
    (w.replay es).exits = w.exits + es.count .exitRequested := by
  induction es generalizing w with
  | nil => rfl
  | cons e es ih =>
    by_cases he : e = .exitRequested
    · subst he; simp [ih, after]; omega
    · simp [ih, after, he]

/-- Nothing is printed but by `print` and `dump`. -/
theorem output_replay {es : List Event}
    (h : ∀ e ∈ es, e.calls "print" = false ∧ e.calls "dump" = false) (w : World) :
    (w.replay es).output = w.output := by
  induction es generalizing w with
  | nil => rfl
  | cons e es ih =>
    obtain ⟨hprint, hdump⟩ := h e (by simp)
    have he : e.printed w.table = "" := by
      cases e with
      | call depth name args =>
        have hp : name ≠ "print" := by simpa [Event.calls] using hprint
        have hd : name ≠ "dump" := by simpa [Event.calls] using hdump
        simp [Event.printed, hp, hd]
      | _ => rfl
    rw [replay_cons, ih (fun e he => h e (by simp [he]))]
    simp [after, he]

end World

namespace Table

@[simp] theorem replay_nil (t : Table) : t.replay [] = t := rfl

@[simp] theorem replay_cons (t : Table) (e : Event) (es : List Event) :
    t.replay (e :: es) = (t.after e).replay es := rfl

/-- Without a call of `set` nothing is bound. -/
theorem replay_eq_self {es : List Event} (h : ∀ e ∈ es, e.calls "set" = false) (t : Table) :
    t.replay es = t := by
  induction es with
  | nil => rfl
  | cons e es ih =>
    have he : e.binding? = none := by
      cases hb : e.binding? with
      | none => rfl
      | some b => exact absurd (Event.binding?_eq_some hb).1 (by simp [h e (by simp)])
    rw [replay_cons, after, he]
    exact ih fun e he => h e (by simp [he])

/-- A property of stored values that the table has and the values bound have stays. -/
theorem replay_all {P : Value → Prop} {es : List Event}
    (h : ∀ e ∈ es, ∀ name v, e.binding? = some (name, v) → P v) {t : Table}
    (ht : ∀ name, P (t.get name)) (name : String) : P ((t.replay es).get name) := by
  induction es generalizing t with
  | nil => exact ht name
  | cons e es ih =>
    refine ih (fun e he => h e (by simp [he])) (t := t.after e) fun other => ?_
    unfold after
    split
    · rename_i n v hb
      rw [get_bind]
      split
      · exact h e (by simp) n v hb
      · exact ht other
    · exact ht other

/-- What is bound anew was bound by an event. -/
theorem exists_binding_of_replay_ne {es : List Event} {t : Table} {name : String}
    (h : (t.replay es).values.find? name ≠ t.values.find? name) :
    ∃ e ∈ es, ∃ v, e.binding? = some (name, v) := by
  induction es generalizing t with
  | nil => exact absurd rfl h
  | cons e es ih =>
    by_cases he : (t.after e).values.find? name = t.values.find? name
    · obtain ⟨e', hmem, v, hb⟩ := ih (t := t.after e) (by rwa [he])
      exact ⟨e', by simp [hmem], v, hb⟩
    · unfold after at he
      split at he
      · rename_i n v hb
        by_cases hn : name = n
        · exact ⟨e, by simp, v, hn ▸ hb⟩
        · exact absurd (by simp [Table.bind, NameMap.find?_insert, hn]) he
      · exact absurd rfl he

end Table

/-- Every argument on record is a value or what a variable was bound to at that moment, where this
is the table at the beginning. -/
def Resolved : Table → List Event → Prop
  | _, [] => True
  | t, e :: es => (∀ a ∈ e.arguments, ∃ v, a = Evaluator.resolve t v) ∧ Resolved (t.after e) es

theorem Resolved.append {t : Table} {es es' : List Event} (h : Resolved t es)
    (h' : Resolved (t.replay es) es') : Resolved t (es ++ es') := by
  induction es generalizing t with
  | nil => exact h'
  | cons e es ih => exact ⟨h.1, ih h.2 h'⟩

/-- One world comes from another by some events. If `notifies` is set, every call of `exit` is an
exit request. -/
structure History (notifies : Bool) (w : World) (events : List Event) (w' : World) : Prop where
  world : w' = w.replay events
  resolved : Resolved w.table events
  exits : events.count .exitRequested = if notifies then events.countP (Event.calls "exit") else 0

namespace History

variable {notifies : Bool} {w w' w'' : World} {es es' : List Event}

theorem refl : History notifies w [] w :=
  ⟨rfl, trivial, by simp⟩

theorem append (h : History notifies w es w') (h' : History notifies w' es' w'') :
    History notifies w (es ++ es') w'' where
  world := by rw [World.replay_append, ← h.world, h'.world]
  resolved := by
    refine h.resolved.append ?_
    rw [← World.table_replay, ← h.world]
    exact h'.resolved
  exits := by
    rw [List.count_append, List.countP_append, h.exits, h'.exits]
    split <;> rfl

/-- An event that is no exit request and no call of `exit`. -/
theorem event {e : Event} (hw : w' = w.after e)
    (hargs : ∀ a ∈ e.arguments, ∃ v, a = Evaluator.resolve w.table v) (hne : e ≠ .exitRequested)
    (hexit : e.calls "exit" = false) : History notifies w [e] w' :=
  ⟨hw, ⟨hargs, trivial⟩, by simp [hexit, hne]⟩

theorem visit (w : World) (depth : Nat) (code : Value) :
    History notifies w [.visit depth code] (w.record (.visit depth code)) :=
  event (by simp [World.after, World.record, Table.after, Event.binding?, Event.printed])
    (by simp [Event.arguments]) (by simp) rfl

end History

/-! ## Calls -/

@[simp] theorem Outcome.world_ofExcept (r : Except Error Value) (w : World) :
    (Outcome.ofExcept r w).world = w := by
  cases r <;> rfl

theorem Bindings.world_set (args : List Value) (w : World) :
    (set args w).world =
      match stored? args with
      | some (id, v) => w.bind id v
      | none => w := by
  rcases args with _ | ⟨a, _ | ⟨v, _ | ⟨_, _⟩⟩⟩
  · rfl
  · cases a <;> rfl
  · cases a with
    | sym id =>
      simp only [set, stored?]
      cases unstorable? v <;> rfl
    | _ => rfl
  · cases a <;> rfl

theorem Bindings.world_get (args : List Value) (w : World) : (get args w).world = w := by
  unfold get
  split <;> rfl

theorem World.after_set (w : World) (depth : Nat) (args : List Value) :
    (Bindings.set args (w.record (.call depth "set" args))).world =
      w.after (.call depth "set" args) := by
  rw [Bindings.world_set]
  simp only [World.after, Table.after, Event.binding?, if_pos]
  cases Bindings.stored? args <;> simp [Event.printed, World.record, World.bind]

theorem World.after_dump (w : World) (depth : Nat) (args : List Value) :
    (Bindings.dump (w.record (.call depth "dump" args))).world =
      w.after (.call depth "dump" args) := by
  simp [World.after, Table.after, Event.binding?, Event.printed, World.record, Bindings.dump,
    Outcome.ok, World.print]

theorem World.after_print (w : World) (depth : Nat) (args : List Value) :
    (Bindings.print args (w.record (.call depth "print" args))).world =
      w.after (.call depth "print" args) := by
  cases args <;>
    simp [World.after, Table.after, Event.binding?, Event.printed, World.record, Bindings.print,
      Outcome.ok, World.print]

/-- A call of anything else is recorded and no more. -/
theorem World.after_call {name : String} (hset : name ≠ "set") (hdump : name ≠ "dump")
    (hprint : name ≠ "print") (w : World) (depth : Nat) (args : List Value) :
    w.record (.call depth name args) = w.after (.call depth name args) := by
  simp [World.after, Table.after, Event.binding?, Event.printed, World.record, hset, hdump, hprint]

theorem World.after_exitRequested (w : World) : w.requestExit = w.after .exitRequested := by
  simp [World.after, Table.after, Event.binding?, Event.printed, World.requestExit]

section Registries

variable {notifies : Bool}

theorem History.call {name : String} (hexit : name ≠ "exit") {w w' : World} {depth : Nat}
    {args : List Value} (hw : w' = w.after (.call depth name args))
    (hargs : ∀ a ∈ args, ∃ v, a = Evaluator.resolve w.table v) :
    History notifies w [.call depth name args] w' :=
  event hw hargs (by simp) (by simp [Event.calls, hexit])

/-- A call that does nothing to the world but being recorded. -/
theorem History.quiet {name : String} (hname : name ∉ ["set", "dump", "print", "exit"])
    {w w' : World} {depth : Nat} {args : List Value} (hw : w' = w.record (.call depth name args))
    (hargs : ∀ a ∈ args, ∃ v, a = Evaluator.resolve w.table v) :
    History notifies w [.call depth name args] w' := by
  simp only [List.mem_cons, List.not_mem_nil, or_false, not_or] at hname
  obtain ⟨hset, hdump, hprint, hexit⟩ := hname
  exact .call hexit (hw.trans (World.after_call hset hdump hprint w depth args)) hargs

theorem exit_history (reenter : Builtin.Reentry) {w : World} {depth : Nat} {args : List Value}
    (hargs : ∀ a ∈ args, ∃ v, a = Evaluator.resolve w.table v) :
    ∃ es, History notifies w es
      (Builtin.run reenter (.exit notifies) args (w.record (.call depth "exit" args))).world := by
  have hw : w.record (.call depth "exit" args) = w.after (.call depth "exit" args) :=
    World.after_call (by decide) (by decide) (by decide) w depth args
  cases notifies with
  | false => exact ⟨[.call depth "exit" args], hw, ⟨hargs, trivial⟩, rfl⟩
  | true =>
    have hrequest : (w.record (.call depth "exit" args)).requestExit =
        w.replay [.call depth "exit" args, .exitRequested] := by
      rw [hw, World.after_exitRequested]
      rfl
    have hargs' : Resolved w.table [.call depth "exit" args, .exitRequested] :=
      ⟨hargs, by simp [Event.arguments], trivial⟩
    exact ⟨_, hrequest, hargs', by simp [Event.calls]⟩

theorem reevaluate_history {reenter : Builtin.Reentry}
    (hre : ∀ code w, ∃ es, History notifies w es (reenter .own code w).world) {w : World}
    {depth : Nat} {args : List Value} (hargs : ∀ a ∈ args, ∃ v, a = Evaluator.resolve w.table v) :
    ∃ es, History notifies w es
      (Builtin.reevaluate reenter .own args (w.record (.call depth "eval" args))).world := by
  have hcall : History notifies w [.call depth "eval" args] (w.record (.call depth "eval" args)) :=
    .quiet (by decide) rfl hargs
  rcases args with _ | ⟨code, _ | ⟨_, _⟩⟩
  · exact ⟨_, hcall⟩
  · obtain ⟨es, hes⟩ := hre code (w.record (.call depth "eval" [code]))
    exact ⟨_, hcall.append hes⟩
  · exact ⟨_, hcall⟩

/-- A call of a builtin that a module brings, where `eval` keeps to such calls as well. -/
theorem run_history {reenter : Builtin.Reentry}
    (hre : ∀ code w, ∃ es, History notifies w es (reenter .own code w).world) {b : Builtin}
    (hb : b.Native notifies) (depth : Nat) {args : List Value} {w : World}
    (hargs : ∀ a ∈ args, ∃ v, a = Evaluator.resolve w.table v) :
    ∃ es, History notifies w es
      (b.run reenter args (w.record (.call depth b.name args))).world := by
  cases b with
  | set => exact ⟨_, .call (by decide) (w.after_set depth args) hargs⟩
  | dump => exact ⟨_, .call (by decide) (w.after_dump depth args) hargs⟩
  | print => exact ⟨_, .call (by decide) (w.after_print depth args) hargs⟩
  | get => exact ⟨_, .quiet (by decide) (Bindings.world_get args _) hargs⟩
  | eval scope =>
    obtain rfl : scope = .own := hb
    exact reevaluate_history hre hargs
  | exit k =>
    obtain rfl : k = notifies := hb
    exact exit_history reenter hargs
  | list => exact ⟨_, .quiet (by decide) rfl hargs⟩
  | _ => exact ⟨_, .quiet (by decide) (Outcome.world_ofExcept _ _) hargs⟩

theorem arguments_resolved (t : Table) (collected : List Value) :
    ∀ a ∈ Evaluator.arguments t collected, ∃ v, a = Evaluator.resolve t v := by
  intro a ha
  obtain ⟨v, -, rfl⟩ := List.mem_map.mp ha
  exact ⟨v, rfl⟩

variable {modules : List Module}

theorem apply_history {reenter : Builtin.Reentry}
    (hre : ∀ code w, ∃ es, History notifies w es (reenter .own code w).world) (name : String)
    (depth : Nat) (collected : List Value) (w : World) : ∃ es, History notifies w es
      (Evaluator.apply reenter (Registry.ofModules notifies modules) name depth collected
        w).world := by
  unfold Evaluator.apply
  dsimp only
  split
  · exact ⟨[], .refl⟩
  · rename_i b hb
    obtain ⟨rfl, hnative⟩ := Registry.native_of_lookup_ofModules hb
    exact run_history hre hnative depth (arguments_resolved w.table collected)

theorem nested_history (n : Nat) : ∀ code w, ∃ es, History notifies w es
    (Evaluator.nested n (Registry.ofModules notifies modules) code w).world := by
  induction n with
  | zero => intro code w; exact ⟨[], .refl⟩
  | succ n ih =>
    intro code w
    refine Evaluator.walk_keeps (I := fun u => ∃ es, History notifies w es u) ?_ ?_ code 0 []
      ⟨[], .refl⟩
    · rintro u depth code ⟨es, hes⟩
      exact ⟨_, hes.append (.visit u depth code)⟩
    · rintro name depth collected u ⟨es, hes⟩
      let registry := Registry.ofModules notifies modules
      let reenter := Evaluator.reentry (Evaluator.nested n) registry
      obtain ⟨es', hes'⟩ : ∃ es', History notifies u es'
          (Evaluator.apply reenter registry name depth collected u).world :=
        apply_history ih name depth collected u
      exact ⟨_, hes.append hes'⟩

/-- Whatever becomes of an evaluation in a registry filled from modules, there is a history behind
it: that of what it has added to the trace. -/
theorem evaluate_history (nesting : Nat) (code : Value) (w : World) : ∃ es,
    History notifies w es (evaluate nesting (Registry.ofModules notifies modules) code w).world :=
  nested_history (nesting + 1) code w

end Registries
end SmallLisp
