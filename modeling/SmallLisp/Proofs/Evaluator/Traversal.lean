import SmallLisp.Proofs.Evaluator.Calls
import SmallLisp.Proofs.Evaluator.Failures
import SmallLisp.Proofs.Evaluator.Nesting

/-!
# SmallLisp.Proofs.Evaluator.Traversal

Evaluation without `eval` ends. The walk follows the code down its heads and its links, and only
`eval` would have it follow a value: so the values that are stepped on are known in advance, and a
walk is a beginning of that traversal, be it all of it or what there is up to an error.

* `Value.traversal`: what a walk steps on if nothing stops it.
* `length_traversal_le`, `partOf_of_mem_traversal`: there are at most two steps to a list, and one
  more, each on a part of the code.
* `walk_follows`: a walk keeps to the traversal, if the calls in it step on nothing.
* `evaluateStep_terminates`: a step of evaluation in a registry of the default modules.
-/

namespace SmallLisp
namespace Value

/-- The lists in a value, each as often as it comes as an element or as the rest of a chain. -/
def listCount : Value → Nat
  | .pair head tail => head.listCount + tail.listCount + 1
  | .last head => head.listCount + 1
  | _ => 0

/-- A value is another one, or a part of an element of it or of what comes behind the element. -/
inductive PartOf (v : Value) : Value → Prop
  | whole : PartOf v v
  | head {head : Value} (tail : Value) : PartOf v head → PartOf v (.pair head tail)
  | tail (head : Value) {tail : Value} : PartOf v tail → PartOf v (.pair head tail)
  | last {head : Value} : PartOf v head → PartOf v (.last head)

/-- The values that a walk over code steps on, in order, if nothing stops it: what is quoted is
left out, and so are elements that are no lists. -/
def traversal : Value → List Value
  | .pair head tail =>
    if head = .op "quote" then [.pair head tail]
    else .pair head tail :: ((if head.isList then head.traversal else []) ++ tail.traversal)
  | .last head => .last head :: if head.isList then head.traversal else []
  | v => [v]

/-- What a walk steps on in the head of a list. -/
def headTraversal (head : Value) : List Value :=
  if head.isList then head.traversal else []

theorem traversal_pair_quote (tail : Value) :
    (pair (.op "quote") tail).traversal = [.pair (.op "quote") tail] := by
  rw [traversal, if_pos rfl]

theorem traversal_pair {head : Value} (h : head ≠ .op "quote") (tail : Value) :
    (pair head tail).traversal = [.pair head tail] ++ (head.headTraversal ++ tail.traversal) := by
  rw [traversal, if_neg h]; rfl

theorem traversal_last (head : Value) :
    (last head).traversal = [.last head] ++ head.headTraversal := rfl

theorem length_headTraversal_le (head : Value) :
    head.headTraversal.length ≤ head.traversal.length := by
  unfold headTraversal
  split
  · exact Nat.le_refl _
  · exact Nat.zero_le _

theorem length_traversal_le (v : Value) : v.traversal.length ≤ 2 * v.listCount + 1 := by
  induction v with
  | pair head tail ihh iht =>
    by_cases hq : head = .op "quote"
    · subst hq
      rw [traversal_pair_quote, List.length_singleton]
      omega
    · have hhead := head.length_headTraversal_le
      simp only [traversal_pair hq, listCount, List.length_append, List.length_singleton]
      omega
  | last head ihh =>
    have hhead := head.length_headTraversal_le
    simp only [traversal_last, listCount, List.length_append, List.length_singleton]
    omega
  | _ => exact Nat.le_refl 1

theorem mem_traversal_of_mem_headTraversal {u head : Value} (h : u ∈ head.headTraversal) :
    u ∈ head.traversal := by
  unfold headTraversal at h
  split at h
  · exact h
  · cases h

theorem partOf_of_mem_traversal {u v : Value} (h : u ∈ v.traversal) : u.PartOf v := by
  induction v with
  | pair head tail ihh iht =>
    by_cases hq : head = .op "quote"
    · subst hq
      rw [traversal_pair_quote] at h
      exact List.mem_singleton.mp h ▸ .whole
    · rw [traversal_pair hq] at h
      rcases List.mem_append.mp h with h | h
      · exact List.mem_singleton.mp h ▸ .whole
      · rcases List.mem_append.mp h with h | h
        · exact .head tail (ihh (mem_traversal_of_mem_headTraversal h))
        · exact .tail head (iht h)
  | last head ihh =>
    rw [traversal_last] at h
    rcases List.mem_append.mp h with h | h
    · exact List.mem_singleton.mp h ▸ .whole
    · exact .last (ihh (mem_traversal_of_mem_headTraversal h))
  | _ => exact List.mem_singleton.mp h ▸ .whole

end Value

/-! ## Steps on record -/

/-- The value that an event is a step on. -/
def Event.visited? : Event → Option Value
  | .visit _ code => some code
  | _ => none

/-- The values that were stepped on, in order: one for each step of the walk. -/
def World.visits (w : World) : List Value :=
  w.trace.filterMap Event.visited?

theorem World.visits_visit (w : World) (depth : Nat) (code : Value) :
    (w.record (.visit depth code)).visits = w.visits ++ [code] := by
  simp [visits, record, Event.visited?]

theorem World.visits_eq_of_trace {w w' : World} {e : Event} (he : e.visited? = none)
    (h : w'.trace = w.trace ∨ w'.trace = w.trace ++ [e]) : w'.visits = w.visits := by
  rcases h with h | h
  · rw [visits, visits, h]
  · simp [visits, h, he]

/-- What was stepped on since `w` is a beginning of `codes`, and all of it if there is a result. -/
def Outcome.Follows (codes : List Value) (w : World) (o : Outcome) : Prop :=
  ∃ vs, vs <+: codes ∧ o.world.visits = w.visits ++ vs ∧ ∀ v, o.result = .ok v → vs = codes

namespace Outcome.Follows

variable {codes codes' : List Value} {w : World} {o o' : Outcome}

theorem of_visits (h : o.world.visits = w.visits) : o.Follows [] w :=
  ⟨[], List.prefix_refl _, by rw [h, List.append_nil], fun _ _ => rfl⟩

theorem visit (code : Value) (depth : Nat) (w : World) (result : Except Failure Value) :
    Outcome.Follows [code] w ⟨result, w.record (.visit depth code)⟩ :=
  ⟨[code], List.prefix_refl _, w.visits_visit depth code, fun _ _ => rfl⟩

/-- What fails does not go on. -/
theorem stop (h : o.Follows codes w) (f : Failure) (hcodes : codes <+: codes') :
    Outcome.Follows codes' w ⟨.error f, o.world⟩ := by
  obtain ⟨vs, hvs, hvisits, -⟩ := h
  exact ⟨vs, hvs.trans hcodes, hvisits, nofun⟩

theorem andThen (h : o.Follows codes w) {v : Value} (hv : o.result = .ok v)
    (h' : o'.Follows codes' o.world) : o'.Follows (codes ++ codes') w := by
  obtain ⟨vs, -, hvisits, hall⟩ := h
  obtain rfl := hall v hv
  obtain ⟨vs', hvs', hvisits', hall'⟩ := h'
  refine ⟨vs ++ vs', (List.prefix_append_right_inj vs).mpr hvs', ?_, ?_⟩
  · rw [hvisits', hvisits, List.append_assoc]
  · intro u hu
    rw [hall' u hu]

/-- What is called at the end steps on nothing. -/
theorem andCall (h : o.Follows codes w) {v : Value} (hv : o.result = .ok v)
    (h' : o'.world.visits = o.world.visits) : o'.Follows codes w := by
  obtain ⟨vs, hvs, hvisits, hall⟩ := h
  exact ⟨vs, hvs, h'.trans hvisits, fun _ _ => hall v hv⟩

end Outcome.Follows

namespace Evaluator

theorem headOutcome_follows {call : Caller} {head : Value}
    (ih : ∀ depth collected w, (walk call head depth collected w).outcome.Follows head.traversal w)
    (depth : Nat) (w : World) :
    (headOutcome call head depth w).Follows head.headTraversal w := by
  cases hl : head.isList with
  | true =>
    rw [headOutcome_of_isList hl, Value.headTraversal, if_pos hl]
    exact ih (depth + 1) [] w
  | false =>
    rw [headOutcome_of_not_isList hl, Value.headTraversal, if_neg (by simp [hl])]
    exact .of_visits rfl

theorem finish_visits {call : Caller} {head : Value} {depth : Nat} {collected : List Value}
    {w : World} (hcall : ∀ name, Value.Occurs (.op name) head →
      (call name depth collected w).world.visits = w.visits) (value : Value) :
    (finish call head value depth collected w).world.visits = w.visits := by
  cases head with
  | op name => exact hcall name rfl
  | _ => rfl

/-- A walk steps on its code and on nothing else, if the calls in it step on nothing. -/
theorem walk_follows {call : Caller} {code : Value}
    (hcall : ∀ name, Value.Occurs (.op name) code → ∀ depth collected w,
      (call name depth collected w).world.visits = w.visits) :
    ∀ depth collected w, (walk call code depth collected w).outcome.Follows code.traversal w := by
  induction code with
  | pair head tail ihh iht =>
    intro depth collected w
    by_cases hq : head = .op "quote"
    · subst hq
      rw [walk_pair_quote, Value.traversal_pair_quote]
      exact .visit _ depth w _
    have hvisit := Outcome.Follows.visit (.pair head tail) depth w (.ok .nil)
    have hhead := headOutcome_follows (ihh fun name h => hcall name (.inl h)) depth
      (w.record (.visit depth (.pair head tail)))
    rw [walk_pair hq, Value.traversal_pair hq]
    dsimp only
    split
    · rename_i f hf
      exact hvisit.andThen rfl (hhead.stop f (List.prefix_append _ _))
    · rename_i value hvalue
      have htail := iht (fun name h => hcall name (.inr h)) (depth + 1) collected
        (headOutcome call head depth (w.record (.visit depth (.pair head tail)))).world
      have hsofar := hvisit.andThen rfl (hhead.andThen hvalue htail)
      split
      · rename_i f hf
        exact hsofar.stop f (List.prefix_refl _)
      · rename_i v hv
        exact hsofar.andCall hv (finish_visits (fun name h => hcall name (.inl h) depth _ _) value)
  | last head ihh =>
    intro depth collected w
    by_cases hq : head = .op "quote"
    · subst hq
      rw [walk_last_quote]
      exact .visit _ depth w _
    have hvisit := Outcome.Follows.visit (.last head) depth w (.ok .nil)
    have hsofar := hvisit.andThen rfl (headOutcome_follows (ihh hcall) depth
      (w.record (.visit depth (.last head))))
    rw [walk_last hq, Value.traversal_last]
    dsimp only
    split
    · rename_i f hf
      exact hsofar.stop f (List.prefix_refl _)
    · rename_i value hvalue
      refine hsofar.andCall hvalue (finish_visits ?_ value)
      exact fun name h => hcall name h depth collected _
  | _ => intro depth collected w; exact .visit _ depth w _

/-! ## Evaluation -/

section Registries

variable {notifies : Bool} {r : Registry} (hr : r.FilledFrom notifies [.arith, .list, .env])

include hr

/-- A call by any name but `eval` steps on nothing. -/
theorem apply_visits {name : String} (hname : name ≠ "eval") (reenter : Builtin.Reentry)
    (depth : Nat) (collected : List Value) (w : World) :
    (apply reenter r name depth collected w).world.visits = w.visits := by
  unfold apply
  dsimp only
  split
  · rfl
  · rename_i b hb
    have heval : ∀ scope, b ≠ .eval scope := by
      rintro scope rfl
      exact hname (hr.native hb).1.symm
    let args := arguments w.table collected
    have hrun := trace_run reenter heval args (w.record (.call depth name args))
    refine (World.visits_eq_of_trace (e := .exitRequested) rfl hrun).trans ?_
    exact World.visits_eq_of_trace (e := .call depth name _) rfl (.inr rfl)

section Code

variable {code : Value} (hcode : ¬Value.Occurs (.op "eval") code)

include hcode

theorem evaluateStep_settles (nesting depth : Nat) (collected : List Value) (w : World) :
    FailsWithin (fun f => ∃ e : Error, f = .error e)
      (evaluateStep nesting r code depth collected w).result := by
  have hF : ∀ e : Error, e.OfCall → ∃ e', Failure.error e = .error e' := fun e _ => ⟨e, rfl⟩
  refine walk_fails hF (.inr fun v => ⟨_, rfl⟩) (fun name hname => ?_) depth collected w
  refine apply_fails hF fun scope hscope => ?_
  obtain rfl : "eval" = name := (hr.native hscope).1
  exact absurd hname hcode

/-- No bound on the nesting of `eval` matters, not even the least one. -/
theorem evaluateStep_eq_zero (nesting depth : Nat) (collected : List Value) (w : World) :
    evaluateStep nesting r code depth collected w = evaluateStep 0 r code depth collected w := by
  have hrefines : (evaluateStep 0 r code depth collected w).Refines
      (evaluateStep nesting r code depth collected w) :=
    walk_refines (apply_refines (fun scope v w =>
      nested_refines (Nat.zero_le nesting) (r.inScope scope) v w) r) code depth collected w
  rcases hrefines with h | h
  · obtain ⟨e, he⟩ := evaluateStep_settles hr hcode 0 depth collected w _ h
    cases he
  · exact h

theorem evaluateStep_follows (nesting depth : Nat) (collected : List Value) (w : World) :
    (evaluateStep nesting r code depth collected w).outcome.Follows code.traversal w := by
  refine walk_follows (fun name hname => ?_) depth collected w
  refine apply_visits hr ?_ (reentry (nested nesting) r)
  rintro rfl
  exact hcode hname

/-- A step of evaluation of code without `eval` in it ends in a value or an error, whatever is in
the table, has been collected or was recorded before. It does so under every bound on the nesting of
`eval`, and alike, so nothing is evaluated inside it. What it steps on is settled by the code, which
is traversed up to some point: the code itself and parts of it, and not more of them than twice as
many as there are lists in the code, and one. -/
theorem evaluateStep_terminates (nesting depth : Nat) (collected : List Value) (w : World) :
    let s := evaluateStep nesting r code depth collected w
    ((∃ v, s.result = .ok v) ∨ ∃ e, s.result = .error (.error e)) ∧
    s = evaluateStep 0 r code depth collected w ∧
    ∃ vs, s.world.visits = w.visits ++ vs ∧ vs <+: code.traversal ∧
      vs.length ≤ 2 * code.listCount + 1 ∧ ∀ v ∈ vs, v.PartOf code := by
  intro s
  refine ⟨?_, evaluateStep_eq_zero hr hcode nesting depth collected w, ?_⟩
  · cases hs : s.result with
    | ok v => exact .inl ⟨v, rfl⟩
    | error f =>
      obtain ⟨e, rfl⟩ := evaluateStep_settles hr hcode nesting depth collected w f hs
      exact .inr ⟨e, rfl⟩
  · obtain ⟨vs, hvs, hvisits, -⟩ := evaluateStep_follows hr hcode nesting depth collected w
    have hlength := Nat.le_trans hvs.length_le code.length_traversal_le
    refine ⟨vs, hvisits, hvs, hlength, fun v hv => ?_⟩
    exact Value.partOf_of_mem_traversal (hvs.subset hv)

end Code

end Registries

/-- With a list in the table that evaluates itself, of which the code takes the first element. -/
theorem evaluateStep_terminates_self_reference :
    let r := Registry.ofModules true [.env, .list]
    let first := Value.ofList [.op "car", .var "x"]
    let code := Value.ofList [.op "list", first, .var "x"]
    let w := World.start (Table.empty.bind "x" (.ofList [.op "eval", .var "x"]))
    let s := evaluateStep 7 r code 2 [.sym "a"] w
    r.FilledFrom true [.arith, .list, .env] ∧ ¬Value.Occurs (.op "eval") code ∧
      s.result = .ok (.ofList [.op "eval", .ofList [.op "eval", .var "x"], .sym "a"]) ∧
      s = evaluateStep 0 r code 2 [.sym "a"] w ∧
      s.world.visits = [code, .ofList [first, .var "x"], first, .ofList [.var "x"], .nil,
        .ofList [.var "x"], .nil] ∧
      (∀ v ∈ s.world.visits, v.PartOf code) ∧ code.listCount = 5 := by
  intro r first code w s
  have hr : r.FilledFrom true [.arith, .list, .env] :=
    (Registry.filledFrom_ofModules true [.env, .list]).mono (by decide)
  have hcode : ¬Value.Occurs (.op "eval") code := by
    simp [code, first, Value.ofList, Value.Occurs]
  obtain ⟨-, hzero, vs, hvisits, -, -, hparts⟩ := evaluateStep_terminates hr hcode 7 2 [.sym "a"] w
  refine ⟨hr, hcode, rfl, hzero, rfl, ?_, rfl⟩
  have hvs : s.world.visits = vs := hvisits
  rw [hvs]
  exact hparts

end Evaluator
end SmallLisp
