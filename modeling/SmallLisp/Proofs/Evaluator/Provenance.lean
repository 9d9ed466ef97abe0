import SmallLisp.Proofs.Evaluator.History

/-!
# SmallLisp.Proofs.Evaluator.Provenance

Where the names in a run come from. Data becomes code by `quote`, `get` and `eval`, and code is
taken apart and put together by the operations on lists, but none of this makes a name: what is new
is numbers, `nil` and lists.

* `evaluate_pervaded`: a hereditary property that the code and the stored values have is one of
  every value in the run.
* `Given`: what the code or a stored value brings along is such a property of atoms.
* `evaluate_provenance`: every operator that is called and every name that is handled is given, so
  that nothing is bound, printed or asked for whose operator is not.
-/

namespace SmallLisp

/-- Every stored value has `P`, and so has every operator and every argument on record. -/
structure World.Pervaded (P : Value → Prop) (w : World) : Prop where
  bindings : ∀ name, P (w.table.get name)
  calls : ∀ {depth name args}, .call depth name args ∈ w.trace → P (.op name) ∧ ∀ a ∈ args, P a

namespace World.Pervaded

variable {P : Value → Prop} {w : World} {e : Event}

theorem arguments (hw : w.Pervaded P) (he : e ∈ w.trace) : ∀ a ∈ e.arguments, P a := by
  cases e with
  | call depth name args => exact (hw.calls he).2
  | _ => intro a ha; cases ha

theorem not_calls (hw : w.Pervaded P) {name : String} (hname : ¬P (.op name)) (he : e ∈ w.trace) :
    e.calls name = false := by
  cases e with
  | call depth n args =>
    have hne : n ≠ name := by rintro rfl; exact hname (hw.calls he).1
    simp [Event.calls, hne]
  | _ => rfl

theorem bindings_replay (hw : w.Pervaded P) {past : List Event} (hpast : past ⊆ w.trace) {t : Table}
    (ht : ∀ name, P (t.get name)) (name : String) : P ((t.replay past).get name) :=
  Table.replay_all (fun _ he _ v hb =>
    hw.arguments (hpast he) v (Event.binding?_eq_some hb).2.2.1) ht name

/-- Every name that is bound anew at a moment of a run has `P`, as a symbol. -/
theorem sym_of_replay_ne (hw : w.Pervaded P) {past : List Event} (hpast : past ⊆ w.trace)
    {t : Table} {name : String} (h : (t.replay past).values.find? name ≠ t.values.find? name) :
    P (.sym name) := by
  obtain ⟨e, he, v, hb⟩ := Table.exists_binding_of_replay_ne h
  exact hw.arguments (hpast he) _ (Event.binding?_eq_some hb).2.1

end World.Pervaded

theorem History.no_exitRequested {notifies : Bool} {w w' : World} {es : List Event}
    (h : History notifies w es w') (hexit : ∀ e ∈ es, e.calls "exit" = false) :
    .exitRequested ∉ es := by
  have hcalls : es.countP (Event.calls "exit") = 0 := by simpa using hexit
  rw [← List.count_eq_zero, h.exits, hcalls]
  split <;> rfl

namespace Evaluator

variable {P : Value → Prop}

theorem mem_record {w : World} {e f : Event} (h : f ∈ (w.record e).trace) :
    f ∈ w.trace ∨ f = e := by
  simpa [World.record] using h

/-- A world is coupled with itself, as long as `P` pervades it. -/
theorem pervaded_coupling (hP : Value.Hereditary P) :
    Coupling P fun w w' => w' = w ∧ w.Pervaded P where
  hereditary := hP
  visit := by
    rintro w _ code depth ⟨rfl, hw⟩ -
    refine ⟨rfl, hw.bindings, fun h => ?_⟩
    rcases mem_record h with h | h
    · exact hw.calls h
    · cases h
  get := by rintro w _ id ⟨rfl, hw⟩ -; exact ⟨rfl, hw.bindings id⟩
  bind := by
    rintro w _ id v ⟨rfl, hw⟩ - hv
    refine ⟨rfl, fun name => ?_, hw.calls⟩
    rw [World.bind, Table.get_bind]
    split
    · exact hv
    · exact hw.bindings name
  print := by rintro w _ text ⟨rfl, hw⟩; exact ⟨rfl, hw.bindings, hw.calls⟩
  requestExit := by
    rintro w _ ⟨rfl, hw⟩
    refine ⟨rfl, hw.bindings, fun h => ?_⟩
    rcases List.mem_append.mp h with h | h
    · exact hw.calls h
    · cases List.mem_singleton.mp h
  call := by
    rintro w _ name args depth ⟨rfl, hw⟩ hname hargs
    refine ⟨rfl, hw.bindings, fun h => ?_⟩
    rcases mem_record h with h | h
    · exact hw.calls h
    · cases h; exact ⟨hname, hargs⟩

/-- A hereditary property of the code and of what there is before evaluation is one of its value and
of what there is then. -/
theorem evaluate_pervaded (hP : Value.Hereditary P) (nesting : Nat) (r : Registry) {code : Value}
    (hcode : P code) {w : World} (hw : w.Pervaded P) :
    (∀ v, (evaluate nesting r code w).result = .ok v → P v) ∧
      (evaluate nesting r code w).world.Pervaded P := by
  have hdumps : ∀ r, DumpsAlike P (fun w w' => w' = w ∧ w.Pervaded P) r :=
    fun r name _ _ _ _ h => by rw [h.1]
  have h := nested_paired (pervaded_coupling hP) (hdumps _) (nesting + 1) r code w w (hdumps r)
    hcode ⟨rfl, hw⟩
  exact ⟨fun v hv => h.value hv, h.world.2⟩

/-- The atoms that some code and a table bring along. Numbers and `nil` come from nowhere. -/
def Given (code : Value) (t : Table) : Value → Prop
  | .nil => True
  | .num _ => True
  | atom => Value.Occurs atom code ∨ ∃ name, Value.Occurs atom (t.get name)

variable {code : Value} {t : Table}

theorem given_of_occurs {atom : Value}
    (h : Value.Occurs atom code ∨ ∃ name, Value.Occurs atom (t.get name)) : Given code t atom := by
  cases atom with
  | nil => trivial
  | num x => trivial
  | _ => exact h

theorem start_pervaded : (World.start t).Pervaded (Value.Within (Given code t)) where
  bindings := fun name _ h => given_of_occurs (.inr ⟨name, h⟩)
  calls := by intro depth name args h; cases h

/-- Whatever becomes of an evaluation, in a registry filled from modules: every builtin that is
called is named by an operator that the code or a value in the table brings along, and every name
that occurs in its arguments, in the result or in a binding at any moment comes from there too, and
so does every name that is bound anew. Where `set` is not brought along, the table never changes;
where neither `print` nor `dump` is, nothing is ever printed; where `exit` is not, no exit is ever
requested. -/
theorem evaluate_provenance (notifies : Bool) (modules : List Module) (nesting : Nat) (code : Value)
    (t : Table) :
    let o := evaluate nesting (Registry.ofModules notifies modules) code (World.start t)
    let given := Given code t
    (∀ depth name args, .call depth name args ∈ o.world.trace →
      given (.op name) ∧ ∀ a ∈ args, a.Within given) ∧
    (∀ v, o.result = .ok v → v.Within given) ∧
    o.world = (World.start t).replay o.world.trace ∧
    ∀ past, past <+: o.world.trace →
      let w := (World.start t).replay past
      (∀ name, (w.table.get name).Within given) ∧
      (∀ name, w.table.values.find? name ≠ t.values.find? name → given (.sym name)) ∧
      (¬given (.op "set") → w.table = t) ∧
      (¬given (.op "print") → ¬given (.op "dump") → w.output = "") ∧
      (¬given (.op "exit") → w.exits = 0) := by
  intro o given
  have hstart : (World.start t).Pervaded (Value.Within given) := start_pervaded
  obtain ⟨hvalue, hend⟩ := evaluate_pervaded (Value.hereditary_within trivial fun _ => trivial)
    nesting (Registry.ofModules notifies modules) (fun _ h => given_of_occurs (.inl h)) hstart
  obtain ⟨es, hes⟩ : ∃ es, History notifies (World.start t) es o.world :=
    evaluate_history nesting code (World.start t)
  have htrace : o.world.trace = es := by
    show (evaluate _ _ _ _).world.trace = es
    rw [hes.world]; simp [World.start]
  have hnot : ∀ {name}, ¬given (.op name) → ∀ e ∈ o.world.trace, e.calls name = false :=
    fun h _ => hend.not_calls fun hw => h (hw _ rfl)
  refine ⟨fun _ _ _ h => ?_, hvalue, by rw [htrace]; exact hes.world, fun past hpast => ?_⟩
  · obtain ⟨hname, hargs⟩ := hend.calls h
    exact ⟨hname _ rfl, hargs⟩
  have hsub : past ⊆ o.world.trace := hpast.subset
  simp only [World.table_replay, World.start]
  refine ⟨?_, ?_, ?_, ?_, ?_⟩
  · exact hend.bindings_replay hsub hstart.bindings
  · exact fun name hne => hend.sym_of_replay_ne hsub hne _ rfl
  · intro hset
    exact Table.replay_eq_self (fun e he => hnot hset e (hsub he)) t
  · intro hprint hdump
    exact World.output_replay (fun e he => ⟨hnot hprint e (hsub he), hnot hdump e (hsub he)⟩) _
  · intro hexit
    have hnone := hes.no_exitRequested fun e he => hnot hexit e (htrace ▸ he)
    rw [World.exits_replay, List.count_eq_zero.mpr fun h => hnone (htrace ▸ hsub h)]

end Evaluator
end SmallLisp
