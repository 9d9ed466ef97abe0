import SmallLisp.Proofs.Evaluator.Walk
import SmallLisp.Proofs.Value.Hereditary

/-!
# SmallLisp.Proofs.Evaluator.Lockstep

Two evaluations of the same code side by side. They start in worlds that a relation `R` couples, and
all values that are in play have a property `P`. If `R` and `P` are strong enough for the builtins
(`Coupling`), the two runs never part: they have the same result, which has `P`, and end in coupled
worlds, whether they succeed or fail.

* `Paired`: the outcomes of two such runs.
* `run_paired`: one builtin. `dump` shows the whole table, so it needs more of `R` than the others.
* `walk_paired`: a walk, given how the calls in it behave; `walk_keeps` is about a single run.
* `nested_paired`: a whole evaluation, `eval` included.
-/

namespace SmallLisp

/-- Two outcomes with the same result, of a value that has `P`, in worlds that `R` couples. -/
structure Outcome.Paired (P : Value → Prop) (R : World → World → Prop) (o o' : Outcome) : Prop where
  result : o.result = o'.result
  value : ∀ {v}, o.result = .ok v → P v
  world : R o.world o'.world

/-- A relation between worlds that steps on code with `P` keep. -/
structure Visitable (P : Value → Prop) (R : World → World → Prop) : Prop where
  hereditary : Value.Hereditary P
  visit : ∀ {w w' code} depth, R w w' → P code →
    R (w.record (.visit depth code)) (w'.record (.visit depth code))

/-- A relation between worlds that what builtins do keeps as well, as long as they see values with
`P` only. -/
structure Coupling (P : Value → Prop) (R : World → World → Prop) : Prop extends
    Visitable P R where
  get : ∀ {w w' id}, R w w' → P (.sym id) ∨ P (.var id) →
    w.table.get id = w'.table.get id ∧ P (w.table.get id)
  bind : ∀ {w w' id v}, R w w' → P (.sym id) → P v → R (w.bind id v) (w'.bind id v)
  print : ∀ {w w'} text, R w w' → R (w.print text) (w'.print text)
  requestExit : ∀ {w w'}, R w w' → R w.requestExit w'.requestExit
  call : ∀ {w w' name args} depth, R w w' → P (.op name) → (∀ v ∈ args, P v) →
    R (w.record (.call depth name args)) (w'.record (.call depth name args))

/-- Coupled worlds list their tables alike. -/
def ListAlike (R : World → World → Prop) : Prop :=
  ∀ {w w'}, R w w' → w.table.listing = w'.table.listing

section Builtins

variable {P : Value → Prop} {R : World → World → Prop} {w w' : World}

theorem ok_paired {v : Value} (hv : P v) (hw : R w w') :
    (Outcome.ok v w).Paired P R (.ok v w') :=
  ⟨rfl, by rintro _ ⟨⟩; exact hv, hw⟩

theorem fail_paired (e : Error) (hw : R w w') :
    (Outcome.fail e w).Paired P R (.fail e w') :=
  ⟨rfl, by rintro _ ⟨⟩, hw⟩

theorem ofExcept_paired {r : Except Error Value} (hr : ∀ {v}, r = .ok v → P v) (hw : R w w') :
    (Outcome.ofExcept r w).Paired P R (.ofExcept r w') := by
  cases r with
  | ok v => exact ok_paired (hr rfl) hw
  | error e => exact fail_paired e hw

variable (hC : Coupling P R)

include hC

theorem set_paired {args : List Value} (hargs : ∀ v ∈ args, P v) (hw : R w w') :
    (Bindings.set args w).Paired P R (Bindings.set args w') := by
  unfold Bindings.set
  split
  · rename_i id v
    split
    · exact fail_paired _ hw
    · exact ok_paired (hargs v (by simp)) (hC.bind hw (hargs _ (by simp)) (hargs v (by simp)))
  · exact fail_paired _ hw
  · exact fail_paired _ hw

theorem get_paired {args : List Value} (hargs : ∀ v ∈ args, P v) (hw : R w w') :
    (Bindings.get args w).Paired P R (Bindings.get args w') := by
  unfold Bindings.get
  split
  · rename_i id
    obtain ⟨heq, hget⟩ := hC.get hw (.inl (hargs (.sym id) (by simp)))
    rw [← heq]
    exact ok_paired hget hw
  · exact fail_paired _ hw
  · exact fail_paired _ hw

theorem dump_paired (hlist : ListAlike R) (hw : R w w') :
    (Bindings.dump w).Paired P R (Bindings.dump w') := by
  simp only [Bindings.dump, hlist hw]
  exact ok_paired hC.hereditary.nil (hC.print _ hw)

theorem print_paired (args : List Value) (hw : R w w') :
    (Bindings.print args w).Paired P R (Bindings.print args w') := by
  cases args with
  | nil => exact ok_paired hC.hereditary.nil hw
  | cons _ _ => exact ok_paired hC.hereditary.nil (hC.print _ hw)

theorem run_paired {reenter reenter' : Builtin.Reentry}
    (hre : ∀ scope code w w', P code → R w w' →
      (reenter scope code w).Paired P R (reenter' scope code w'))
    {b : Builtin} (hdump : b = .dump → ListAlike R) {args : List Value} (hargs : ∀ v ∈ args, P v)
    (hw : R w w') : (b.run reenter args w).Paired P R (b.run reenter' args w') := by
  have hP := hC.hereditary
  cases b with
  | add => exact ofExcept_paired hP.fold hw
  | sub => exact ofExcept_paired hP.foldFirst hw
  | mul => exact ofExcept_paired hP.fold hw
  | div => exact ofExcept_paired hP.foldFirst hw
  | cons => exact ofExcept_paired (hP.cons hargs) hw
  | car => exact ofExcept_paired (hP.partOf hP.car hargs) hw
  | cdr => exact ofExcept_paired (hP.partOf hP.cdr hargs) hw
  | nth => exact ofExcept_paired (hP.nthOf hargs) hw
  | list => exact ok_paired (hP.ofList hargs) hw
  | set => exact set_paired hC hargs hw
  | get => exact get_paired hC hargs hw
  | dump => exact dump_paired hC (hdump rfl) hw
  | print => exact print_paired hC args hw
  | eval scope =>
    rcases args with _ | ⟨code, _ | ⟨_, _⟩⟩
    · exact ok_paired hP.nil hw
    · exact hre scope code w w' (hargs code (by simp)) hw
    · exact fail_paired _ hw
  | exit notifies =>
    cases notifies with
    | true => exact ok_paired hP.nil (hC.requestExit hw)
    | false => exact ok_paired hP.nil hw

end Builtins

namespace Evaluator

variable {P : Value → Prop} {R : World → World → Prop}

/-- `Outcome.Paired` for steps: what was collected is the same too, and has `P`. -/
structure Step.Paired (P : Value → Prop) (R : World → World → Prop) (s s' : Step) : Prop where
  outcome : s.outcome.Paired P R s'.outcome
  collected : s.collected = s'.collected
  values : ∀ v ∈ s.collected, P v

theorem collect_all {collected : List Value} {v : Value} (h : ∀ u ∈ collected, P u) (hv : P v) :
    ∀ u ∈ collect collected v, P u := by
  intro u hu
  cases v with
  | nil => exact h u hu
  | _ =>
    rcases List.mem_append.mp hu with hu | hu
    · exact h u hu
    · exact List.mem_singleton.mp hu ▸ hv

theorem quote_paired (hP : Value.Hereditary P) {rest : Value} (hrest : P rest)
    {collected : List Value} (hcol : ∀ v ∈ collected, P v) {w w' : World} (hw : R w w') :
    Step.Paired P R ⟨quote rest, collected, w⟩ ⟨quote rest, collected, w'⟩ := by
  refine ⟨⟨rfl, ?_, hw⟩, rfl, hcol⟩
  intro v hv
  simp only [Step.outcome, quote] at hv
  split at hv
  · rename_i u hu
    cases hv
    exact hP.elements hrest v (by simp [hu])
  · cases hv

theorem refuse_paired (hC : Visitable P R) {v : Value} (hv : P v) (depth : Nat)
    {collected : List Value} (hcol : ∀ u ∈ collected, P u) {w w' : World} (hw : R w w') :
    (refuse v depth collected w).Paired P R (refuse v depth collected w') :=
  ⟨⟨rfl, by rintro _ ⟨⟩, hC.visit depth hw hv⟩, rfl, hcol⟩

theorem headOutcome_paired {call call' : Caller} {head : Value} (hhead : P head)
    (ih : ∀ depth collected w w', (∀ v ∈ collected, P v) → R w w' →
      (walk call head depth collected w).Paired P R (walk call' head depth collected w'))
    (depth : Nat) {w w' : World} (hw : R w w') :
    (headOutcome call head depth w).Paired P R (headOutcome call' head depth w') := by
  cases hl : head.isList with
  | true =>
    rw [headOutcome_of_isList hl, headOutcome_of_isList hl]
    exact (ih (depth + 1) [] w w' (by simp) hw).outcome
  | false =>
    rw [headOutcome_of_not_isList hl, headOutcome_of_not_isList hl]
    exact ok_paired hhead hw

section Calls

variable {call call' : Caller} (hC : Visitable P R)
  (hcall : ∀ name depth collected w w', P (.op name) → (∀ v ∈ collected, P v) → R w w' →
    (call name depth collected w).Paired P R (call' name depth collected w'))

include hcall

theorem finish_paired {head value : Value} (hhead : P head) (hvalue : P value) (depth : Nat)
    {collected : List Value} (hcol : ∀ v ∈ collected, P v) {w w' : World} (hw : R w w') :
    (finish call head value depth collected w).Paired P R
      (finish call' head value depth collected w') := by
  cases head with
  | op name =>
    have h := hcall name depth collected w w' hhead hcol hw
    exact ⟨⟨h.result, h.value, h.world⟩, rfl, hcol⟩
  | _ => exact ⟨ok_paired hvalue hw, rfl, hcol⟩

include hC

theorem walk_paired {code : Value} (hcode : P code) :
    ∀ depth collected w w', (∀ v ∈ collected, P v) → R w w' →
      (walk call code depth collected w).Paired P R (walk call' code depth collected w') := by
  induction code with
  | nil =>
    intro depth collected w w' hcol hw
    exact ⟨ok_paired hcode (hC.visit depth hw hcode), rfl, hcol⟩
  | num x => intro depth collected w w' hcol hw; exact refuse_paired hC hcode depth hcol hw
  | sym id => intro depth collected w w' hcol hw; exact refuse_paired hC hcode depth hcol hw
  | var id => intro depth collected w w' hcol hw; exact refuse_paired hC hcode depth hcol hw
  | op id => intro depth collected w w' hcol hw; exact refuse_paired hC hcode depth hcol hw
  | pair head tail ihh iht =>
    intro depth collected w w' hcol hw
    obtain ⟨hhead, htail⟩ := (hC.hereditary.pair _ _).mp hcode
    have hw1 := hC.visit depth hw hcode
    by_cases hq : head = .op "quote"
    · subst hq
      rw [walk_pair_quote, walk_pair_quote]
      exact quote_paired hC.hereditary htail hcol hw1
    rw [walk_pair hq, walk_pair hq]
    have hf := headOutcome_paired hhead (ihh hhead) depth hw1
    dsimp only
    rw [← hf.result]
    split
    · rename_i f hfr
      exact ⟨⟨rfl, by rintro _ ⟨⟩, hf.world⟩, rfl, hcol⟩
    · rename_i value hval
      have hs := iht htail (depth + 1) collected _ _ hcol hf.world
      rw [← show (walk call tail _ _ _).result = (walk call' tail _ _ _).result from
        hs.outcome.result, ← hs.collected]
      split
      · exact ⟨⟨rfl, by rintro _ ⟨⟩, hs.outcome.world⟩, rfl, hs.values⟩
      · rename_i v hv
        exact finish_paired hcall hhead (hf.value hval) depth
          (collect_all hs.values (hs.outcome.value hv)) hs.outcome.world
  | last head ihh =>
    intro depth collected w w' hcol hw
    have hhead := hC.hereditary.last _ hcode
    have hw1 := hC.visit depth hw hcode
    by_cases hq : head = .op "quote"
    · subst hq
      rw [walk_last_quote, walk_last_quote]
      exact quote_paired hC.hereditary hC.hereditary.nil hcol hw1
    rw [walk_last hq, walk_last hq]
    have hf := headOutcome_paired hhead (ihh hhead) depth hw1
    dsimp only
    rw [← hf.result]
    split
    · exact ⟨⟨rfl, by rintro _ ⟨⟩, hf.world⟩, rfl, hcol⟩
    · rename_i value hval
      exact finish_paired hcall hhead (hf.value hval) depth hcol hf.world

end Calls

/-- What steps and calls keep of the world, a walk keeps: one run side by side with itself. -/
theorem walk_keeps {I : World → Prop}
    (hvisit : ∀ {w} depth code, I w → I (w.record (.visit depth code))) {call : Caller}
    (hcall : ∀ name depth collected w, I w → I (call name depth collected w).world)
    (code : Value) (depth : Nat) (collected : List Value) {w : World} (hw : I w) :
    I (walk call code depth collected w).world := by
  let R : World → World → Prop := fun u u' => u' = u ∧ I u
  have hR : Visitable (fun _ => True) R :=
    ⟨⟨trivial, fun _ => trivial, fun _ _ => by simp, fun _ => id⟩,
      fun depth h _ => ⟨by rw [h.1], hvisit depth _ h.2⟩⟩
  have hpaired : ∀ name depth collected u u', True → (∀ v ∈ collected, True) → R u u' →
      (call name depth collected u).Paired (fun _ => True) R (call name depth collected u') := by
    rintro name depth collected _ u - - ⟨rfl, hu⟩
    exact ⟨rfl, fun _ => trivial, rfl, hcall name depth collected u hu⟩
  exact (walk_paired hR hpaired trivial depth collected w w (by simp) ⟨rfl, hw⟩).outcome.world.2

variable (hC : Coupling P R)

include hC

theorem resolve_eq_of_coupled {w w' : World} (hw : R w w') {v : Value} (hv : P v) :
    resolve w.table v = resolve w'.table v ∧ P (resolve w.table v) := by
  cases v with
  | var id => exact hC.get hw (.inr hv)
  | _ => exact ⟨rfl, hv⟩

theorem arguments_eq_of_coupled {w w' : World} (hw : R w w') {collected : List Value}
    (hcol : ∀ v ∈ collected, P v) :
    arguments w.table collected = arguments w'.table collected ∧
      ∀ v ∈ arguments w.table collected, P v := by
  have hrev : ∀ v ∈ collected.reverse, P v := fun v hv => hcol v (List.mem_reverse.mp hv)
  constructor
  · exact List.map_congr_left fun v hv => (resolve_eq_of_coupled hC hw (hrev v hv)).1
  · intro v hv
    obtain ⟨u, hu, rfl⟩ := List.mem_map.mp hv
    exact (resolve_eq_of_coupled hC hw (hrev u hu)).2

theorem apply_paired {reenter reenter' : Builtin.Reentry}
    (hre : ∀ scope code w w', P code → R w w' →
      (reenter scope code w).Paired P R (reenter' scope code w'))
    {r : Registry} {name : String} (hname : P (.op name))
    (hdump : r.lookup name = .ok .dump → ListAlike R) (depth : Nat) {collected : List Value}
    (hcol : ∀ v ∈ collected, P v) {w w' : World} (hw : R w w') :
    (apply reenter r name depth collected w).Paired P R
      (apply reenter' r name depth collected w') := by
  obtain ⟨heq, hargs⟩ := arguments_eq_of_coupled hC hw hcol
  simp only [apply, ← heq]
  split
  · exact fail_paired _ hw
  · rename_i b hb
    exact run_paired hC hre (fun he => hdump (he ▸ hb)) hargs (hC.call depth hw hname hargs)

/-- What a registry calls `dump` may be called only where coupled worlds list their tables alike. -/
def DumpsAlike (P : Value → Prop) (R : World → World → Prop) (r : Registry) : Prop :=
  ∀ name, P (.op name) → r.lookup name = .ok .dump → ListAlike R

/-- Two runs from coupled worlds stay side by side. -/
theorem nested_paired (hstd : DumpsAlike P R (Registry.standard false)) (n : Nat) :
    ∀ r code w w', DumpsAlike P R r → P code → R w w' →
      (nested n r code w).Paired P R (nested n r code w') := by
  induction n with
  | zero => intro r code w w' _ _ hw; exact ⟨rfl, by rintro _ ⟨⟩, hw⟩
  | succ n ih =>
    intro r code w w' hr hcode hw
    have hre : ∀ scope code w w', P code → R w w' →
        (reentry (nested n) r scope code w).Paired P R (reentry (nested n) r scope code w') := by
      intro scope code w w' hcode hw
      cases scope with
      | own => exact ih r code w w' hr hcode hw
      | standard => exact ih _ code w w' hstd hcode hw
    have hcall : ∀ name depth collected w w', P (.op name) → (∀ v ∈ collected, P v) → R w w' →
        (apply (reentry (nested n) r) r name depth collected w).Paired P R
          (apply (reentry (nested n) r) r name depth collected w') :=
      fun name depth _ _ _ hname hcol hw =>
        apply_paired hC hre hname (hr name hname) depth hcol hw
    exact (walk_paired hC.toVisitable hcall hcode 0 [] w w' (by simp) hw).outcome

end Evaluator
end SmallLisp
